import Hamlog.Library.ReplyGrammar
import Hamlog.Server.RequestRuns

/-! # The texts that the request parser reads

A grammar of the requests: a request line, header fields with their continuation
lines, and a content when one of the headers is named `Content-Length`. The
parser finishes at the last byte of the texts of the grammar, and of no others,
and the request it then holds is made of their parts.
-/
namespace Hamlog.Wire
open Foundation Server
open Library (Name Value Blank Digits blankLines)

/-- A line that continues a header: white space, and behind it a text or nothing. -/
structure Continuation where
  white : Bytes
  piece : Bytes
  white_blank : Blank white
  piece_value : Value piece
  piece_head : piece.head? ≠ some (ch ' ')

def Continuation.text (line : Continuation) : Bytes := line.white ++ line.piece ++ crlf

/-- A header with its continuation lines. -/
structure Field where
  name : Bytes
  value : Bytes
  continuations : List Continuation
  name_token : Name name
  value_clean : Value value

def Field.text (field : Field) : Bytes :=
  headerLine ⟨field.name, field.value⟩ ++ field.continuations.flatMap Continuation.text

/-- The header that is recorded for a field: its value is read piece by piece. -/
def Field.header (field : Field) : Header :=
  ⟨field.name, field.value ++ field.continuations.flatMap Continuation.piece⟩

def fieldsText (fields : List Field) : Bytes := fields.flatMap Field.text

/-- The bytes of a URI. -/
def Uri (text : Bytes) : Prop := ∀ c ∈ text, c ≠ ch ' ' ∧ isControl c = false

structure RequestLine where
  method : Bytes
  uri : Bytes
  major : Bytes
  minor : Bytes
  method_token : Name method
  uri_clean : Uri uri
  major_digits : Digits major
  minor_digits : Digits minor

/-- The first line up to the version. -/
def lineHead (method uri : Bytes) : Bytes := method ++ ch ' ' :: uri

def RequestLine.text (line : RequestLine) : Bytes :=
  lineHead line.method line.uri ++ bytes " HTTP/" ++ line.major ++ [ch '.'] ++ line.minor ++ crlf

/-- The number that the parser computes from the digits of a version. -/
def versionOf (digits : Bytes) : UInt32 := digits.foldl RequestParser.pushDigit 0

def lineRequest (method uri major minor : Bytes) : Request where
  method := method
  uri := uri
  majorVersion := versionOf major
  minorVersion := versionOf minor

/-- The request behind the first line and some headers. -/
def RequestLine.request (line : RequestLine) (headers : List Header) : Request :=
  { lineRequest line.method line.uri line.major line.minor with headers := headers }

/-- A content: in front of it further blank lines are skipped. -/
structure Body where
  blanks : ℕ
  content : Bytes
  ne_nil : content ≠ []
  no_cr : cr ∉ content

def Body.text (body : Body) : Bytes := blankLines body.blanks ++ (body.content ++ crlf)

/-- The headers announce a content. -/
def Announced (fields : List Field) : Prop := ∃ field ∈ fields, field.name = contentLengthName

/-- The parts of a whole request. -/
structure RequestText where
  line : RequestLine
  fields : List Field
  body : Option Body
  body_isSome : body.isSome = true ↔ Announced fields

def RequestText.text (parts : RequestText) : Bytes :=
  parts.line.text ++ fieldsText parts.fields ++ crlf ++ parts.body.elim [] Body.text

def RequestText.request (parts : RequestText) : Request :=
  { parts.line.request (parts.fields.map Field.header) with
    content := parts.body.elim [] Body.content
    finished := true }

/-- A new parser finishes a request exactly at the last byte, and holds this request then. -/
def FinishesWith (data : Bytes) (req : Request) : Prop :=
  ∃ state, RequestParser.parse .methodStart {} data = (data.length, state, req) ∧
    req.finished = true

theorem hasHeader_iff {fields : List Field} {req : Request}
    (h : req.headers = fields.map Field.header) :
    req.hasHeader contentLengthName = true ↔ Announced fields := by
  simp [Request.hasHeader, h, Announced, Field.header]

/-! ## The texts of the grammar are read -/

open RequestParser

theorem parse_requestDigits {state next : State} {f : Bytes → Request} {digits : Bytes}
    (hdigits : Digits digits) (hf : ∀ w, (f w).finished = false)
    (hfirst : ∀ c, isDigit c → handleChar state (f []) c = some (next, f [c]))
    (hnext : ∀ w c, isDigit c → handleChar next (f w) c = some (next, f (w ++ [c]))) :
    decoder.parse (state, f []) digits = .more (next, f digits) := by
  obtain ⟨hne, hall⟩ := hdigits
  let g : Bytes → State × Request := fun w => (if w = [] then state else next, f w)
  have h := decoder.parse_accumulate g digits fun w a v hv => by
    have ha := hall a (by simp [hv])
    by_cases hw : w = []
    · subst hw
      exact ⟨decoder_step (by simpa [g] using hfirst a ha), hf [a]⟩
    · exact ⟨decoder_step (by simpa [g, hw] using hnext w a ha), hf (w ++ [a])⟩
  simpa [g, hne] using h

theorem ne_of_isDigit {c d : Byte} (hc : isDigit c) (hd : isDigit d = false) : c ≠ d := by
  rintro rfl
  simp [hd] at hc

theorem parse_requestLine (line : RequestLine) :
    decoder.parse initial line.text = .more (.headerLineStart, line.request []) := by
  have hmethod := parse_method line.method_token.1 line.method_token.2
  have huri := parse_uri { method := line.method } rfl rfl line.uri_clean
  let named : Request := { method := line.method, uri := line.uri }
  have hhttp : decoder.parse (.uri, named) (bytes " HTTP/") =
      .more (.httpVersionMajorStart, named) := by
    change decoder.parse _ [ch ' ', ch 'H', ch 'T', ch 'T', ch 'P', ch '/'] = _
    simp [Decoder.parse, decoder, handleChar, expect, named]
  let f : Bytes → Request := fun w => { named with majorVersion := versionOf w }
  have hmajor : decoder.parse (.httpVersionMajorStart, named) line.major =
      .more (.httpVersionMajor, f line.major) := by
    refine parse_requestDigits (f := f) line.major_digits (fun _ => rfl) ?_ ?_
    · intro c hc
      simp [handleChar, hc, f, named, versionOf]
    · intro w c hc
      simp [handleChar, hc, ne_of_isDigit hc (d := ch '.') (by decide), f, versionOf]
  have hpoint : decoder.parse (.httpVersionMajor, f line.major) [ch '.'] =
      .more (.httpVersionMinorStart, f line.major) := by
    rw [parse_char .httpVersionMinorStart (by simp [handleChar]) rfl, Decoder.parse_nil]
  let g : Bytes → Request := fun w => { f line.major with minorVersion := versionOf w }
  have hminor : decoder.parse (.httpVersionMinorStart, f line.major) line.minor =
      .more (.httpVersionMinor, g line.minor) := by
    refine parse_requestDigits (f := g) line.minor_digits (fun _ => rfl) ?_ ?_
    · intro c hc
      simp [handleChar, hc, g, f, named, versionOf]
    · intro w c hc
      simp [handleChar, hc, ne_of_isDigit hc (d := ch '\r') (by decide), g, versionOf]
  have hend : decoder.parse (.httpVersionMinor, g line.minor) crlf =
      .more (.headerLineStart, g line.minor) := by
    change decoder.parse _ [ch '\r', ch '\n'] = _
    rw [parse_char .expectingNewline1 (by simp [handleChar]) rfl,
      parse_char .headerLineStart (by simp [handleChar, expect]) rfl, Decoder.parse_nil]
  exact decoder.more_trans (decoder.more_trans (decoder.more_trans (decoder.more_trans
    (decoder.more_trans (decoder.more_trans hmethod huri) hhttp) hmajor) hpoint) hminor) hend

/-- A continuation line is read behind any headers but none, into the value of the last one. -/
theorem parse_continuation (req : Request) (hf : req.finished = false) {front : List Header}
    {last : Header} (hreq : req.headers = front ++ [last]) (line : Continuation) :
    decoder.parse (.headerLineStart, req) line.text =
      .more (.headerLineStart,
        { req with headers := front ++ [⟨last.name, last.value ++ line.piece⟩] }) := by
  obtain ⟨white, piece, ⟨hne, hwhite⟩, hvalue, hhead⟩ := line
  let f : Bytes → Request := fun w =>
    { req with headers := front ++ [⟨last.name, last.value ++ w⟩] }
  have hstart : f [] = req := by simp [f, ← hreq]
  have hreturn {c : Byte} (hc : c = ch ' ' ∨ c = ch '\t') : c ≠ ch '\r' := by
    rcases hc with rfl | rfl <;> decide
  let g : Bytes → State × Request := fun w => (if w = [] then .headerLineStart else .headerLws, req)
  have hblank := decoder.parse_accumulate g white fun w a v hv => by
    have ha := hwhite a (by simp [hv])
    by_cases hw : w = []
    · simp [g, decoder, handleChar, hw, hreq, hreturn ha, ha, hf]
    · simp [g, decoder, handleChar, hw, hreturn ha, ha, hf]
  let k : Bytes → State × Request := fun w => (if w = [] then .headerLws else .headerValue, f w)
  have hpiece := decoder.parse_accumulate k piece fun w a v hv => by
    have ha := hvalue a (by simp [hv])
    have hcr : a ≠ ch '\r' := ne_of_isControl ha (by decide)
    by_cases hw : w = []
    · have hspace : a ≠ ch ' ' := fun h0 => hhead (by simp [hv, hw, h0])
      have htab : a ≠ ch '\t' := ne_of_isControl ha (by decide)
      simp [k, f, decoder, handleChar, hw, hcr, hspace, htab, ha, hf, Request.pushValue,
        List.modifyLast_concat]
    · simp [k, f, decoder, handleChar, hw, hcr, ha, hf, Request.pushValue, List.modifyLast_concat]
  have hend : decoder.parse (k piece) crlf = .more (.headerLineStart, f piece) := by
    change decoder.parse _ [ch '\r', ch '\n'] = _
    have hfirst : handleChar (k piece).1 (f piece) (ch '\r') =
        some (.expectingNewline2, f piece) := by
      by_cases hp : piece = [] <;> simp [k, hp, handleChar]
    have hunfinished : (f piece).finished = false := hf
    rw [parse_char .expectingNewline2 hfirst hunfinished,
      parse_char .headerLineStart (by simp [handleChar, expect]) hunfinished, Decoder.parse_nil]
  have hwhole : decoder.parse (.headerLineStart, req) white = .more (k []) := by
    simpa [g, k, hne, hstart] using hblank
  exact decoder.more_trans (decoder.more_trans hwhole hpiece) hend

theorem parse_continuations (req : Request) (hf : req.finished = false) (front : List Header)
    (name value : Bytes) (lines : List Continuation) :
    decoder.parse (.headerLineStart, { req with headers := front ++ [⟨name, value⟩] })
        (lines.flatMap Continuation.text) =
      .more (.headerLineStart, { req with
        headers := front ++ [⟨name, value ++ lines.flatMap Continuation.piece⟩] }) := by
  induction lines generalizing value with
  | nil => simp
  | cons line lines ih =>
    have hline := parse_continuation { req with headers := front ++ [⟨name, value⟩] } hf rfl line
    simpa using decoder.more_trans hline (ih (value ++ line.piece))

theorem parse_field (req : Request) (hf : req.finished = false) (field : Field) :
    decoder.parse (.headerLineStart, req) field.text =
      .more (.headerLineStart, { req with headers := req.headers ++ [field.header] }) :=
  decoder.more_trans
    (parse_header req hf ⟨field.name_token.1, field.name_token.2, field.value_clean⟩)
    (parse_continuations req hf req.headers field.name field.value field.continuations)

theorem parse_fields (req : Request) (hf : req.finished = false) (fields : List Field) :
    decoder.parse (.headerLineStart, req) (fieldsText fields) =
      .more (.headerLineStart, { req with headers := req.headers ++ fields.map Field.header }) := by
  induction fields generalizing req with
  | nil => simp [fieldsText]
  | cons field fields ih =>
    have hfield := parse_field req hf field
    have hfields := ih { req with headers := req.headers ++ [field.header] } hf
    simpa [fieldsText] using decoder.more_trans hfield hfields

/-- Blank lines in front of a content are skipped. -/
theorem parse_blankLines (req : Request) (hf : req.finished = false)
    (hcl : req.hasHeader contentLengthName = true) (n : ℕ) :
    decoder.parse (.contentStart, req) (blankLines n) = .more (.contentStart, req) := by
  induction n with
  | zero => rfl
  | succ n ih => exact decoder.more_trans (parse_emptyLine (.inr rfl) req hf hcl) ih

/-- The text of a request is read to its last byte, which finishes it. -/
theorem parse_requestText (parts : RequestText) :
    decoder.parse initial parts.text = .done (.methodStart, parts.request) [] := by
  let req := parts.line.request (parts.fields.map Field.header)
  have hhead : decoder.parse initial (parts.line.text ++ fieldsText parts.fields) =
      .more (.headerLineStart, req) :=
    decoder.more_trans (parse_requestLine parts.line)
      (parse_fields (parts.line.request []) rfl parts.fields)
  have hannounced : req.hasHeader contentLengthName = true ↔ Announced parts.fields :=
    hasHeader_iff rfl
  rw [RequestText.text, List.append_assoc, decoder.parse_append_more hhead]
  cases hbody : parts.body with
  | none =>
    have hcl : req.hasHeader contentLengthName = false := by
      rw [Bool.eq_false_iff, ne_eq, hannounced, ← parts.body_isSome, hbody]
      simp
    rw [Option.elim_none, List.append_nil, parse_end req rfl hcl, RequestText.request, hbody]
    rfl
  | some body =>
    have hcl : req.hasHeader contentLengthName = true := by
      rw [hannounced, ← parts.body_isSome, hbody]
      rfl
    have hblank := parse_blank req rfl hcl
    have hblanks := parse_blankLines req rfl hcl body.blanks
    have hcontent := parse_content req rfl rfl body.ne_nil body.no_cr
    rw [Option.elim_some, Body.text, decoder.parse_append_more hblank,
      decoder.parse_append_more hblanks, hcontent, RequestText.request, hbody]
    rfl

/-! ## Only the texts of the grammar are read -/

/-- The states inside the literal in front of the version, with the bytes of it read so far. -/
def literalStates : List (State × Bytes) :=
  [(.httpVersionH, bytes " "), (.httpVersionT1, bytes " H"), (.httpVersionT2, bytes " HT"),
    (.httpVersionP, bytes " HTT"), (.httpVersionSlash, bytes " HTTP")]

/-- The first line as far as it was read. -/
inductive LineReading : Bytes → State → Request → Prop where
  | start : LineReading [] .methodStart (lineRequest [] [] [] [])
  | method {method} : Name method → LineReading method .method (lineRequest method [] [] [])
  | uri {method uri} : Name method → Uri uri →
      LineReading (lineHead method uri) .uri (lineRequest method uri [] [])
  | literal {method uri state text} : Name method → Uri uri → (state, text) ∈ literalStates →
      LineReading (lineHead method uri ++ text) state (lineRequest method uri [] [])
  | majorStart {method uri} : Name method → Uri uri →
      LineReading (lineHead method uri ++ bytes " HTTP/") .httpVersionMajorStart
        (lineRequest method uri [] [])
  | major {method uri major} : Name method → Uri uri → Digits major →
      LineReading (lineHead method uri ++ bytes " HTTP/" ++ major) .httpVersionMajor
        (lineRequest method uri major [])
  | minorStart {method uri major} : Name method → Uri uri → Digits major →
      LineReading (lineHead method uri ++ bytes " HTTP/" ++ major ++ [ch '.'])
        .httpVersionMinorStart (lineRequest method uri major [])
  | minor {method uri major minor} : Name method → Uri uri → Digits major → Digits minor →
      LineReading (lineHead method uri ++ bytes " HTTP/" ++ major ++ [ch '.'] ++ minor)
        .httpVersionMinor (lineRequest method uri major minor)
  | lineEnd {past} (line : RequestLine) : past ++ [ch '\n'] = line.text →
      LineReading past .expectingNewline1 (line.request [])

/-- The header lines as far as they were read. -/
inductive FieldReading (line : RequestLine) : Bytes → State → Request → Prop where
  | start (fields : List Field) :
      FieldReading line (line.text ++ fieldsText fields) .headerLineStart
        (line.request (fields.map Field.header))
  | name (fields : List Field) {name} : Name name →
      FieldReading line (line.text ++ fieldsText fields ++ name) .headerName
        (line.request (fields.map Field.header ++ [⟨name, []⟩]))
  | colon (fields : List Field) {name} : Name name →
      FieldReading line (line.text ++ fieldsText fields ++ (name ++ [ch ':']))
        .spaceBeforeHeaderValue (line.request (fields.map Field.header ++ [⟨name, []⟩]))
  | value (fields : List Field) {name value} : Name name → Value value →
      FieldReading line (line.text ++ fieldsText fields ++ (name ++ bytes ": " ++ value))
        .headerValue (line.request (fields.map Field.header ++ [⟨name, value⟩]))
  | white (fields : List Field) (field : Field) {white} : Blank white →
      FieldReading line (line.text ++ fieldsText (fields ++ [field]) ++ white) .headerLws
        (line.request ((fields ++ [field]).map Field.header))
  | piece (fields : List Field) (field : Field) {white first rest} : Blank white →
      first ≠ ch ' ' → Value (first :: rest) →
      FieldReading line (line.text ++ fieldsText (fields ++ [field]) ++ (white ++ first :: rest))
        .headerValue (line.request (fields.map Field.header ++
          [⟨field.name, field.header.value ++ first :: rest⟩]))
  | lineEnd (fields : List Field) {past} : past ++ [ch '\n'] = line.text ++ fieldsText fields →
      FieldReading line past .expectingNewline2 (line.request (fields.map Field.header))

/-- What is behind the headers, as far as it was read. A blank line behind the first one was read
only if a content is announced. -/
inductive BodyReading (line : RequestLine) (fields : List Field) : Bytes → State → Request → Prop
    where
  | blankLine {n} : (n = 0 ∨ Announced fields) →
      BodyReading line fields (line.text ++ fieldsText fields ++ (blankLines n ++ [ch '\r']))
        .expectingNewline3 (line.request (fields.map Field.header))
  | contentStart {n} : Announced fields →
      BodyReading line fields (line.text ++ fieldsText fields ++ (blankLines n ++ crlf))
        .contentStart (line.request (fields.map Field.header))
  | content {n content} : Announced fields → content ≠ [] → cr ∉ content →
      BodyReading line fields
        (line.text ++ fieldsText fields ++ (blankLines n ++ crlf ++ content)) .content
        { line.request (fields.map Field.header) with content := content }
  | contentEnd {n content} : Announced fields → content ≠ [] → cr ∉ content →
      BodyReading line fields
        (line.text ++ fieldsText fields ++ (blankLines n ++ crlf ++ content ++ [ch '\r']))
        .expectingNewline4 { line.request (fields.map Field.header) with content := content }

/-- What an unfinished parser has read. -/
inductive Reading (past : Bytes) (state : State) (req : Request) : Prop where
  | line : LineReading past state req → Reading past state req
  | fields (line : RequestLine) : FieldReading line past state req → Reading past state req
  | body (line : RequestLine) (fields : List Field) : BodyReading line fields past state req →
      Reading past state req

theorem Reading.unfinished {past : Bytes} {state : State} {req : Request}
    (h : Reading past state req) : req.finished = false := by
  rcases h with h | ⟨line, h⟩ | ⟨line, fields, h⟩ <;> cases h <;> rfl

variable {past : Bytes} {state state' : State} {req req' : Request} {c : Byte} {line : RequestLine}
  {fields : List Field}

theorem isToken_of_accepted (h : ¬ (!isChar c || isControl c || isSpecial c) = true) :
    isToken c := by
  simpa [isToken, and_assoc] using h

theorem name_append {name : Bytes} (h : Name name) (hc : isToken c) : Name (name ++ [c]) := by
  refine ⟨by simp, ?_⟩
  intro d hd
  rcases List.mem_append.mp hd with hd | hd
  · exact h.2 d hd
  · rwa [List.mem_singleton.mp hd]

theorem digits_append {digits : Bytes} (h : Digits digits) (hc : isDigit c) :
    Digits (digits ++ [c]) := by
  refine ⟨by simp, ?_⟩
  intro d hd
  rcases List.mem_append.mp hd with hd | hd
  · exact h.2 d hd
  · rwa [List.mem_singleton.mp hd]

theorem versionOf_append (digits : Bytes) (c : Byte) :
    versionOf (digits ++ [c]) = pushDigit (versionOf digits) c := by
  simp [versionOf]

theorem LineReading.step (h : LineReading past state req)
    (hstep : handleChar state req c = some (state', req')) : Reading (past ++ [c]) state' req' := by
  cases h with
  | start =>
    simp only [handleChar] at hstep
    split_ifs at hstep with hc
    cases hstep
    exact .line (.method ⟨by simp, by simpa using isToken_of_accepted hc⟩)
  | method hmethod =>
    simp only [handleChar] at hstep
    split_ifs at hstep with hspace hc <;> cases hstep
    · subst hspace
      exact .line (.uri hmethod (by simp [Uri]))
    · exact .line (.method (name_append hmethod (isToken_of_accepted hc)))
  | uri hmethod huri =>
    rename_i method uri
    simp only [handleChar] at hstep
    split_ifs at hstep with hspace hc <;> cases hstep
    · subst hspace
      exact .line (.literal hmethod huri (by decide))
    · have huri' : Uri (uri ++ [c]) := by
        simpa [Uri, or_imp, forall_and, hspace, hc] using huri
      have hpast : lineHead method uri ++ [c] = lineHead method (uri ++ [c]) := by
        simp [lineHead]
      exact hpast ▸ .line (.uri hmethod huri')
  | literal hmethod huri hliteral =>
    rw [List.append_assoc]
    simp only [literalStates, List.mem_cons, Prod.mk.injEq, List.not_mem_nil, or_false] at hliteral
    rcases hliteral with ⟨rfl, rfl⟩ | ⟨rfl, rfl⟩ | ⟨rfl, rfl⟩ | ⟨rfl, rfl⟩ | ⟨rfl, rfl⟩ <;>
      simp only [handleChar, expect] at hstep <;> split_ifs at hstep with hc <;> cases hstep <;>
      subst hc
    · exact .line (.literal hmethod huri (by decide))
    · exact .line (.literal hmethod huri (by decide))
    · exact .line (.literal hmethod huri (by decide))
    · exact .line (.literal hmethod huri (by decide))
    · exact .line (.majorStart hmethod huri)
  | majorStart hmethod huri =>
    simp only [handleChar] at hstep
    split_ifs at hstep with hc
    cases hstep
    exact .line (.major hmethod huri ⟨by simp, by simpa using hc⟩)
  | major hmethod huri hmajor =>
    rename_i method uri major
    simp only [handleChar] at hstep
    split_ifs at hstep with hpoint hc <;> cases hstep
    · subst hpoint
      exact .line (.minorStart hmethod huri hmajor)
    · have h := LineReading.major hmethod huri (digits_append hmajor hc)
      rw [lineRequest, versionOf_append] at h
      rw [List.append_assoc]
      exact .line h
  | minorStart hmethod huri hmajor =>
    simp only [handleChar] at hstep
    split_ifs at hstep with hc
    cases hstep
    exact .line (.minor hmethod huri hmajor ⟨by simp, by simpa using hc⟩)
  | minor hmethod huri hmajor hminor =>
    rename_i method uri major minor
    simp only [handleChar] at hstep
    split_ifs at hstep with hcr hc <;> cases hstep
    · subst hcr
      exact .line (.lineEnd ⟨method, uri, major, minor, hmethod, huri, hmajor, hminor⟩
        (by simp [RequestLine.text, crlf, cr, lf]))
    · have h := LineReading.minor hmethod huri hmajor (digits_append hminor hc)
      rw [lineRequest, versionOf_append] at h
      rw [List.append_assoc]
      exact .line h
  | lineEnd line hline =>
    simp only [handleChar, expect] at hstep
    split_ifs at hstep with hc
    cases hstep
    subst hc
    have hpast : past ++ [ch '\n'] = line.text ++ fieldsText [] := by simp [hline, fieldsText]
    exact hpast ▸ .fields line (.start [])

theorem request_pushName (line : RequestLine) (headers : List Header) (name : Bytes) (c : Byte) :
    (line.request (headers ++ [⟨name, []⟩])).pushName c =
      line.request (headers ++ [⟨name ++ [c], []⟩]) := by
  simp [RequestLine.request, Request.pushName, List.modifyLast_concat]

theorem request_pushValue (line : RequestLine) (headers : List Header) (name value : Bytes)
    (c : Byte) :
    (line.request (headers ++ [⟨name, value⟩])).pushValue c =
      line.request (headers ++ [⟨name, value ++ [c]⟩]) := by
  simp [RequestLine.request, Request.pushValue, List.modifyLast_concat]

/-- The field with one more line. -/
def Field.continue (field : Field) (line : Continuation) : Field :=
  { field with continuations := field.continuations ++ [line] }

theorem text_continue (field : Field) (line : Continuation) :
    (field.continue line).text = field.text ++ line.text := by
  simp [Field.continue, Field.text]

theorem header_continue (field : Field) (line : Continuation) :
    (field.continue line).header = ⟨field.name, field.header.value ++ line.piece⟩ := by
  simp [Field.continue, Field.header]

@[simp] theorem fieldsText_snoc (fields : List Field) (field : Field) :
    fieldsText (fields ++ [field]) = fieldsText fields ++ field.text := by
  simp [fieldsText]

/-- The line end behind a continuation line. -/
theorem reading_lineEnd (fields : List Field) (field : Field) (continuation : Continuation) :
    Reading (line.text ++ fieldsText (fields ++ [field]) ++
        (continuation.white ++ continuation.piece) ++ [ch '\r']) .expectingNewline2
      (line.request (fields.map Field.header ++
        [⟨field.name, field.header.value ++ continuation.piece⟩])) := by
  have hlines : line.text ++ fieldsText (fields ++ [field]) ++
      (continuation.white ++ continuation.piece) ++ [ch '\r'] ++ [ch '\n'] =
      line.text ++ fieldsText (fields ++ [field.continue continuation]) := by
    simp [text_continue, Continuation.text, crlf, cr, lf]
  have h := FieldReading.lineEnd _ hlines
  rw [List.map_append, List.map_singleton, header_continue] at h
  exact .fields line h

theorem FieldReading.step (h : FieldReading line past state req)
    (hstep : handleChar state req c = some (state', req')) : Reading (past ++ [c]) state' req' := by
  cases h with
  | start fields =>
    simp only [handleChar] at hstep
    split_ifs at hstep with hcr hblank hc <;> cases hstep
    · subst hcr
      exact .body line fields (.blankLine (.inl rfl))
    · obtain ⟨front, field, rfl⟩ : ∃ front field, fields = front ++ [field] := by
        rcases List.eq_nil_or_concat fields with rfl | ⟨front, field, rfl⟩
        · simp [RequestLine.request] at hblank
        · exact ⟨front, field, by simp⟩
      simp only [Bool.and_eq_true, Bool.or_eq_true, beq_iff_eq] at hblank
      exact .fields line (.white front field ⟨by simp, by simpa using hblank.2⟩)
    · exact .fields line (.name fields ⟨by simp, by simpa using isToken_of_accepted hc⟩)
  | name fields hname =>
    simp only [handleChar] at hstep
    rw [List.append_assoc]
    split_ifs at hstep with hcolon hc <;> cases hstep
    · subst hcolon
      exact .fields line (.colon fields hname)
    · rw [request_pushName]
      exact .fields line (.name fields (name_append hname (isToken_of_accepted hc)))
  | colon fields hname =>
    rename_i name
    simp only [handleChar, expect] at hstep
    split_ifs at hstep with hc
    cases hstep
    subst hc
    have hpast : line.text ++ fieldsText fields ++ (name ++ [ch ':']) ++ [ch ' '] =
        line.text ++ fieldsText fields ++ (name ++ bytes ": " ++ []) := by
      simp only [List.append_assoc, List.append_nil]
      rfl
    exact hpast ▸ .fields line (.value fields hname (by simp [Value]))
  | value fields hname hvalue =>
    rename_i name value
    simp only [handleChar] at hstep
    split_ifs at hstep with hcr hc <;> cases hstep
    · subst hcr
      let field : Field := ⟨name, value, [], hname, hvalue⟩
      have hlines : line.text ++ fieldsText fields ++ (name ++ bytes ": " ++ value) ++ [ch '\r'] ++
          [ch '\n'] = line.text ++ fieldsText (fields ++ [field]) := by
        simp [field, Field.text, headerLine, crlf, cr, lf]
      have hheader : field.header = ⟨name, value⟩ := by simp [field, Field.header]
      have h := FieldReading.lineEnd _ hlines
      rw [List.map_append, List.map_singleton, hheader] at h
      exact .fields line h
    · have hvalue' : Value (value ++ [c]) := by
        simpa [Value, or_imp, forall_and, hc] using hvalue
      rw [request_pushValue, List.append_assoc, List.append_assoc _ _ [c]]
      exact .fields line (.value fields hname hvalue')
  | white fields field hwhite =>
    rename_i white
    simp only [handleChar] at hstep
    split_ifs at hstep with hcr hblank hc <;> cases hstep
    · subst hcr
      let continuation : Continuation := ⟨white, [], hwhite, by simp [Value], by simp⟩
      have h : Reading (line.text ++ fieldsText (fields ++ [field]) ++ (white ++ []) ++ [ch '\r'])
          .expectingNewline2 _ := reading_lineEnd fields field continuation
      have hheader : (⟨field.name, field.header.value ++ []⟩ : Header) = field.header := by
        simp [Field.header]
      rw [hheader, List.append_nil] at h
      rwa [List.map_append, List.map_singleton]
    · have hwhite' : Blank (white ++ [c]) :=
        ⟨by simp, by simpa [or_imp, forall_and, hblank] using hwhite.2⟩
      rw [List.append_assoc]
      exact .fields line (.white fields field hwhite')
    · have hspace : c ≠ ch ' ' := fun h0 => hblank (.inl h0)
      have hvalue : Value [c] := by simpa [Value] using hc
      rw [List.map_append, List.map_singleton, List.append_assoc]
      have h : FieldReading line _ _ _ := .piece fields field hwhite hspace hvalue
      rw [← request_pushValue] at h
      exact .fields line h
  | piece fields field hwhite hfirst hvalue =>
    rename_i white first rest
    simp only [handleChar] at hstep
    split_ifs at hstep with hcr hc <;> cases hstep
    · subst hcr
      exact reading_lineEnd fields field
        ⟨white, first :: rest, hwhite, hvalue, by simpa using hfirst⟩
    · have hvalue' : Value (first :: (rest ++ [c])) := by
        simpa [Value, or_imp, forall_and, hc, and_assoc] using hvalue
      have h : FieldReading line _ _ _ := .piece fields field hwhite hfirst hvalue'
      rw [request_pushValue, List.append_assoc, List.append_assoc, List.append_assoc]
      simpa using Reading.fields line h
  | lineEnd fields hlines =>
    simp only [handleChar, expect] at hstep
    split_ifs at hstep with hc
    cases hstep
    subst hc
    exact hlines ▸ .fields line (.start fields)

theorem blankLines_append (n : ℕ) : blankLines n ++ crlf = blankLines (n + 1) := by
  induction n with
  | zero => rfl
  | succ n ih => rw [blankLines, List.append_assoc, ih, ← blankLines]

/-- Behind the headers a byte leads on, or completes the text of a request. -/
theorem BodyReading.step (h : BodyReading line fields past state req)
    (hstep : handleChar state req c = some (state', req')) :
    Reading (past ++ [c]) state' req' ∨
      ∃ parts : RequestText, past ++ [c] = parts.text ∧ req' = parts.request := by
  cases h with
  | blankLine hn =>
    rename_i n
    have hpast : line.text ++ fieldsText fields ++ (blankLines n ++ [ch '\r']) ++ [ch '\n'] =
        line.text ++ fieldsText fields ++ (blankLines n ++ crlf) := by simp [crlf, cr, lf]
    have hannounced : (line.request (fields.map Field.header)).hasHeader contentLengthName = true ↔
        Announced fields := hasHeader_iff rfl
    simp only [handleChar] at hstep
    split_ifs at hstep with hc hcl <;> cases hstep <;> subst hc
    · exact .inl (hpast ▸ .body line fields (.contentStart (hannounced.mp hcl)))
    · have hnone := hannounced.not.mp hcl
      obtain rfl : n = 0 := hn.resolve_right hnone
      refine .inr ⟨⟨line, fields, none, by simpa using hnone⟩, ?_, rfl⟩
      rw [hpast]
      simp [RequestText.text, blankLines]
  | contentStart hannounced =>
    rename_i n
    simp only [handleChar] at hstep
    split_ifs at hstep with hcr <;> cases hstep
    · subst hcr
      rw [blankLines_append, List.append_assoc]
      exact .inl (.body line fields (.blankLine (.inr hannounced)))
    · have hcr' : cr ∉ [c] := by simpa [cr, eq_comm] using hcr
      rw [List.append_assoc]
      exact .inl (.body line fields (.content hannounced (by simp) hcr'))
  | content hannounced hne hcr =>
    rename_i n content
    simp only [handleChar] at hstep
    rw [List.append_assoc]
    split_ifs at hstep with hc <;> cases hstep
    · subst hc
      exact .inl (.body line fields (.contentEnd hannounced hne hcr))
    · have hcr' : cr ∉ content ++ [c] := by simpa [cr, eq_comm] using And.intro hcr hc
      rw [List.append_assoc (blankLines n ++ crlf)]
      exact .inl (.body line fields (.content hannounced (by simp) hcr'))
  | contentEnd hannounced hne hcr =>
    rename_i n content
    simp only [handleChar] at hstep
    split_ifs at hstep with hc
    cases hstep
    subst hc
    let body : Body := ⟨n, content, hne, hcr⟩
    refine .inr ⟨⟨line, fields, some body, by simpa using hannounced⟩, ?_, rfl⟩
    have hblank : blankLines n ++ crlf = crlf ++ blankLines n := blankLines_append n
    have hcrlf : [ch '\r'] ++ [ch '\n'] = crlf := rfl
    rw [RequestText.text, Option.elim_some, Body.text, hblank, List.append_assoc,
      List.append_assoc _ [ch '\r'], hcrlf]
    simp [body]

theorem Reading.step (h : Reading past state req)
    (hstep : handleChar state req c = some (state', req')) :
    Reading (past ++ [c]) state' req' ∨
      ∃ parts : RequestText, past ++ [c] = parts.text ∧ req' = parts.request := by
  rcases h with h | ⟨line, h⟩ | ⟨line, fields, h⟩
  · exact .inl (h.step hstep)
  · exact .inl (h.step hstep)
  · exact h.step hstep

/-- What a parser has read when it finishes is the text of a request. -/
theorem Reading.finishes {data : Bytes} {s : State × Request} (h : Reading past state req)
    (hparse : decoder.parse (state, req) data = .done s []) :
    ∃ parts : RequestText, past ++ data = parts.text ∧ s.2 = parts.request := by
  induction data generalizing past state req with
  | nil => cases hparse
  | cons c data ih =>
    cases hstep : handleChar state req c with
    | none => simp [decoder.parse_cons_fail (decoder_step_none hstep)] at hparse
    | some t =>
      obtain ⟨state', req'⟩ := t
      have hdata : past ++ c :: data = past ++ [c] ++ data := by simp
      rw [hdata]
      cases hfinished : req'.finished with
      | true =>
        rw [decoder.parse_cons_done (decoder_step hstep) hfinished] at hparse
        cases hparse
        rw [List.append_nil]
        refine (h.step hstep).resolve_left fun hreading => ?_
        simp [hreading.unfinished] at hfinished
      | false =>
        rw [decoder.parse_cons_more (decoder_step hstep) hfinished] at hparse
        refine ih ((h.step hstep).resolve_right ?_) hparse
        rintro ⟨parts, -, rfl⟩
        simp [RequestText.request] at hfinished

/-- The parser finishes a request at the last byte of the texts of the grammar and of no others,
and the request is the one that their parts make up. -/
theorem finishesWith_iff (data : Bytes) (req : Request) :
    FinishesWith data req ↔ ∃ parts : RequestText, data = parts.text ∧ req = parts.request := by
  constructor
  · rintro ⟨state, hparse, hfinished⟩
    rw [parse_initial_eq] at hparse
    cases hdata : decoder.parse initial data with
    | more s =>
      have hunfinished : s.2.finished = false := decoder.more_unfinished rfl hdata
      rw [hdata] at hparse
      cases hparse
      simp [hunfinished] at hfinished
    | fail s e rest =>
      have hunfinished : s.2.finished = false := decoder.fail_unfinished rfl hdata
      rw [hdata] at hparse
      simp only [Prod.mk.injEq] at hparse
      obtain ⟨-, -, rfl⟩ := hparse
      simp [hunfinished] at hfinished
    | done s rest =>
      have hlength := decoder.done_rest_length hdata
      rw [hdata] at hparse
      simp only [Prod.mk.injEq] at hparse
      obtain ⟨hcount, -, rfl⟩ := hparse
      obtain rfl : rest = [] := List.eq_nil_of_length_eq_zero (by omega)
      exact Reading.finishes (.line .start) hdata
  · rintro ⟨parts, rfl, rfl⟩
    refine ⟨.methodStart, ?_, rfl⟩
    rw [parse_initial_eq, parse_requestText]
    simp

end Hamlog.Wire
