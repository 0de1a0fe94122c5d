import Hamlog.Server.RequestParser

/-! # Stretches of a request in the server's parser

What the request decoder does on each part of a well-formed request, from the
state that the part before leaves. Every lemma reads its part silently; only
the line end behind the headers or behind the content finishes the request.
-/
namespace Hamlog.Server.RequestParser
open Foundation Wire

theorem parse_method {m : Bytes} (hne : m ≠ []) (hm : ∀ c ∈ m, isToken c) :
    decoder.parse initial m = .more (.method, { method := m }) := by
  let f : Bytes → State × Request := fun w =>
    (if w = [] then .methodStart else .method, { method := w })
  have h := decoder.parse_accumulate f m fun w a v hv => by
    have ha : a ∈ m := by simp [hv]
    obtain ⟨h1, h2, h3⟩ := isToken_iff.mp (hm a ha)
    have hsp : a ≠ ch ' ' := ne_of_isToken (hm a ha) (by decide)
    by_cases hw : w = [] <;> simp [f, decoder, handleChar, hw, h1, h2, h3, hsp]
  simpa [f, hne, initial] using h

theorem parse_uri (req : Request) (hreq : req.uri = []) (hf : req.finished = false) {u : Bytes}
    (hu : ∀ c ∈ u, c ≠ ch ' ' ∧ isControl c = false) :
    decoder.parse (.method, req) (ch ' ' :: u) = .more (.uri, { req with uri := u }) := by
  let f : Bytes → State × Request := fun w => (.uri, { req with uri := w })
  have h0 : decoder.step (.method, req) (ch ' ') = .ok (f []) := by
    have : req = { req with uri := [] } := by rw [← hreq]
    simp [f, decoder, handleChar, ← this]
  rw [decoder.parse_cons_more h0 hf]
  exact decoder.parse_accumulate f u fun w a v hv => by
    obtain ⟨h1, h2⟩ := hu a (by simp [hv])
    simp [f, decoder, handleChar, h1, h2, hf]

/-- A character that leads to the next state and leaves the request alone. -/
theorem parse_char {s : State} {req : Request} {c : Byte} (t : State)
    (hs : handleChar s req c = some (t, req)) (hf : req.finished = false) (rest : Bytes) :
    decoder.parse (s, req) (c :: rest) = decoder.parse (t, req) rest :=
  decoder.parse_cons_more (decoder_step hs) hf

theorem parse_version (m u : Bytes) :
    decoder.parse (.uri, { method := m, uri := u }) (bytes " HTTP/1.1\r\n") =
      .more (.headerLineStart,
        { method := m, uri := u, majorVersion := 1, minorVersion := 1 }) := by
  have hd : isDigit (ch '1') = true := by decide
  have hv : pushDigit 0 (ch '1') = 1 := by decide
  change decoder.parse _ [ch ' ', ch 'H', ch 'T', ch 'T', ch 'P', ch '/', ch '1', ch '.', ch '1',
    ch '\r', ch '\n'] = _
  simp [Decoder.parse, decoder, handleChar, expect, hd, hv]

theorem parse_headerName (req : Request) (hf : req.finished = false) {n : Bytes} (hne : n ≠ [])
    (hn : ∀ c ∈ n, isToken c) :
    decoder.parse (.headerLineStart, req) n =
      .more (.headerName, { req with headers := req.headers ++ [⟨n, []⟩] }) := by
  let f : Bytes → State × Request := fun w =>
    if w = [] then (.headerLineStart, req)
    else (.headerName, { req with headers := req.headers ++ [⟨w, []⟩] })
  have h := decoder.parse_accumulate f n fun w a v hv => by
    have ha := hn a (by simp [hv])
    obtain ⟨h1, h2, h3⟩ := isToken_iff.mp ha
    have hcr : a ≠ ch '\r' := ne_of_isToken ha (by decide)
    have hsp : a ≠ ch ' ' := ne_of_isToken ha (by decide)
    have hht : a ≠ ch '\t' := ne_of_isToken ha (by decide)
    have hcolon : a ≠ ch ':' := ne_of_isToken ha (by decide)
    by_cases hw : w = []
    · simp [f, decoder, handleChar, hw, h1, h2, h3, hcr, hsp, hht, hf]
    · simp [f, decoder, handleChar, hw, h1, h2, h3, hcolon, hf, Request.pushName, List.modifyLast_concat]
  simpa [f, hne] using h

theorem parse_headerValue (req : Request) (hf : req.finished = false) (hs : List Header)
    (n : Bytes) {v : Bytes} (hv : ∀ c ∈ v, isControl c = false) :
    decoder.parse (.headerValue, { req with headers := hs ++ [⟨n, []⟩] }) v =
      .more (.headerValue, { req with headers := hs ++ [⟨n, v⟩] }) := by
  let f : Bytes → State × Request := fun w =>
    (.headerValue, { req with headers := hs ++ [⟨n, w⟩] })
  exact decoder.parse_accumulate f v fun w a u hu => by
    have ha := hv a (by simp [hu])
    have hcr : a ≠ ch '\r' := ne_of_isControl ha (by decide)
    simp [f, decoder, handleChar, ha, hcr, hf, Request.pushValue, List.modifyLast_concat]

/-- A whole header line adds its header and leads back to the start of a line. -/
theorem parse_header (req : Request) (hf : req.finished = false) {h : Header} (hh : h.Clean) :
    decoder.parse (.headerLineStart, req) (headerLine h) =
      .more (.headerLineStart, { req with headers := req.headers ++ [h] }) := by
  have hname := parse_headerName req hf hh.name_ne_nil hh.name_token
  have hvalue := parse_headerValue req hf req.headers h.name hh.value_clean
  have hcolon (r : Request) (hr : r.finished = false) :
      decoder.parse (.headerName, r) (bytes ": ") = .more (.headerValue, r) := by
    change decoder.parse _ [ch ':', ch ' '] = _
    rw [parse_char .spaceBeforeHeaderValue (by simp [handleChar]) hr,
      parse_char .headerValue (by simp [handleChar, expect]) hr, decoder.parse_nil]
  have hend (r : Request) (hr : r.finished = false) :
      decoder.parse (.headerValue, r) crlf = .more (.headerLineStart, r) := by
    change decoder.parse _ [ch '\r', ch '\n'] = _
    rw [parse_char .expectingNewline2 (by simp [handleChar]) hr,
      parse_char .headerLineStart (by simp [handleChar, expect]) hr, decoder.parse_nil]
  exact decoder.more_trans (decoder.more_trans (decoder.more_trans hname
    (hcolon { req with headers := req.headers ++ [⟨h.name, []⟩] } hf)) hvalue)
    (hend { req with headers := req.headers ++ [h] } hf)

/-- Any number of header lines, in their order. -/
theorem parse_headers (req : Request) (hf : req.finished = false) {hs : List Header}
    (hhs : ∀ h ∈ hs, h.Clean) :
    decoder.parse (.headerLineStart, req) (hs.flatMap headerLine) =
      .more (.headerLineStart, { req with headers := req.headers ++ hs }) := by
  induction hs generalizing req with
  | nil => simp
  | cons h hs ih =>
    have h1 := parse_header req hf (hhs h (by simp))
    have h2 := ih { req with headers := req.headers ++ [h] } hf fun k hk => hhs k (by simp [hk])
    simpa using decoder.more_trans h1 h2

/-- The blank line finishes a request that declares no content. -/
theorem parse_end (req : Request) (hf : req.finished = false)
    (hcl : req.hasHeader contentLengthName = false) :
    decoder.parse (.headerLineStart, req) crlf =
      .done (.methodStart, { req with finished := true }) [] := by
  change decoder.parse _ [ch '\r', ch '\n'] = _
  rw [parse_char .expectingNewline3 (by simp [handleChar]) hf]
  exact decoder.parse_cons_done (decoder_step (by simp [handleChar, hcl])) rfl

/-- With a declared content length a blank line leads to the start of the content. -/
theorem parse_emptyLine {state : State} (hstate : state = .headerLineStart ∨ state = .contentStart)
    (req : Request) (hf : req.finished = false) (hcl : req.hasHeader contentLengthName = true) :
    decoder.parse (state, req) crlf = .more (.contentStart, req) := by
  have hcr : handleChar state req (ch '\r') = some (.expectingNewline3, req) := by
    rcases hstate with rfl | rfl <;> simp [handleChar]
  change decoder.parse _ [ch '\r', ch '\n'] = _
  rw [parse_char .expectingNewline3 hcr hf,
    parse_char .contentStart (by simp [handleChar, hcl]) hf, decoder.parse_nil]

theorem parse_blank (req : Request) (hf : req.finished = false)
    (hcl : req.hasHeader contentLengthName = true) :
    decoder.parse (.headerLineStart, req) crlf = .more (.contentStart, req) :=
  parse_emptyLine (.inl rfl) req hf hcl

/-- A content without carriage returns is read up to the line end behind it. -/
theorem parse_content (req : Request) (hf : req.finished = false) (hreq : req.content = [])
    {body : Bytes} (hne : body ≠ []) (hcr : cr ∉ body) :
    decoder.parse (.contentStart, req) (body ++ crlf) =
      .done (.methodStart, { req with content := body, finished := true }) [] := by
  let f : Bytes → State × Request := fun w =>
    (if w = [] then .contentStart else .content, { req with content := w })
  have hstart : f [] = (.contentStart, req) := by simp [f, ← hreq]
  have h := decoder.parse_accumulate f body fun w a v hv => by
    have ha : a ≠ ch '\r' := fun h0 => hcr (by simp [hv, ← h0, cr])
    by_cases hw : w = [] <;> simp [f, decoder, handleChar, hw, ha, hf]
  rw [hstart] at h
  rw [decoder.parse_append_more h]
  have hbody : f body = (.content, { req with content := body }) := by simp [f, hne]
  have hf' : ({ req with content := body } : Request).finished = false := hf
  change decoder.parse _ [ch '\r', ch '\n'] = _
  rw [hbody, parse_char .expectingNewline4 (by simp [handleChar]) hf']
  exact decoder.parse_cons_done (decoder_step (by simp [handleChar])) rfl

end Hamlog.Server.RequestParser
