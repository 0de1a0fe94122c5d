import Hamlog.Library.Request
import Hamlog.Server.RequestRuns

/-! # From the client's requests to the server's

The text of `ham_request_get_data` is read back by `RequestParser` as one
request with the same parts, so a stream of such texts gives the list of
requests. A content is delimited by the line end behind it and not by the
length that its header declares.
-/
namespace Hamlog.Wire
open Foundation Library Server Server.RequestParser

/-- A request whose parts the wire format can carry. -/
structure Sendable (r : HAMRequest) : Prop where
  method_ne_nil : r.method ≠ []
  method_token : ∀ c ∈ r.method, isToken c
  uri_clean : ∀ c ∈ r.uri, c ≠ ch ' ' ∧ isControl c = false
  headers_clean : ∀ h ∈ r.headers, h.Clean
  headers_name : ∀ h ∈ r.headers, h.name ≠ contentLengthName
  content_ne_nil : ∀ body ∈ r.content, body ≠ []
  content_plain : ∀ body ∈ r.content, 0 ∉ body ∧ cr ∉ body

/-- The request that the server sees: the client's headers, then the length of a content. -/
def received (r : HAMRequest) : Request where
  method := r.method
  uri := r.uri
  majorVersion := 1
  minorVersion := 1
  finished := true
  headers := r.headers ++ (r.content.map contentHeader).toList
  content := r.content.getD []

/-- The request under construction behind the client's own headers. -/
def headRequest (r : HAMRequest) : Request where
  method := r.method
  uri := r.uri
  majorVersion := 1
  minorVersion := 1
  headers := r.headers

/-- The request line and the headers, from a new parser to the start of a line. -/
theorem parse_head {r : HAMRequest} (hr : Sendable r) :
    decoder.parse initial (r.method ++ [ch ' '] ++ r.uri ++ bytes " HTTP/1.1\r\n" ++
        r.headers.flatMap headerLine) = .more (.headerLineStart, headRequest r) := by
  have hmethod := parse_method hr.method_ne_nil hr.method_token
  have huri := parse_uri { method := r.method } rfl rfl hr.uri_clean
  have hversion := parse_version r.method r.uri
  have hheaders := parse_headers
    { method := r.method, uri := r.uri, majorVersion := 1, minorVersion := 1 } rfl hr.headers_clean
  have h := decoder.more_trans (decoder.more_trans (decoder.more_trans hmethod huri) hversion)
    hheaders
  simpa only [List.append_assoc, List.cons_append, List.nil_append, headRequest] using h

theorem headRequest_hasHeader {r : HAMRequest} (hr : Sendable r) :
    (headRequest r).hasHeader contentLengthName = false := by
  simpa [Request.hasHeader, headRequest] using hr.headers_name

/-- One request text is one finished request, read to its last byte. -/
theorem parse_hamRequestGetData {r : HAMRequest} (hr : Sendable r) :
    decoder.parse initial (hamRequestGetData r) = .done (.methodStart, received r) [] := by
  have hhead := parse_head hr
  rw [hamRequestGetData, List.append_assoc, decoder.parse_append_more hhead]
  cases hc : r.content with
  | none =>
    simp only [contentText, List.nil_append]
    rw [parse_end _ rfl (headRequest_hasHeader hr)]
    simp [received, headRequest, hc]
  | some body =>
    have hline := parse_header (headRequest r) rfl (contentHeader_clean body)
    have hblank := parse_blank
      { headRequest r with headers := (headRequest r).headers ++ [contentHeader body] } rfl
      (by simp [Request.hasHeader, contentHeader, contentLengthName])
    have hbody := parse_content
      { headRequest r with headers := (headRequest r).headers ++ [contentHeader body] } rfl rfl
      (hr.content_ne_nil body hc) (hr.content_plain body hc).2
    rw [contentText_some, List.append_assoc, decoder.parse_append_more
      (decoder.more_trans hline hblank), hbody]
    simp [received, hc, headRequest]

/-! ## Streams of requests -/

/-- `n` calls of `RequestParser::parse` with one parser, each with a new request and the bytes that
the calls before left; all of them have to finish their request. -/
def parseCalls : ℕ → State → Bytes → Option (List Request × State × Bytes)
  | 0, state, data => some ([], state, data)
  | n + 1, state, data =>
    match parse state {} data with
    | (count, state', req) =>
      if req.finished then
        (parseCalls n state' (data.drop count)).map fun r => (req :: r.1, r.2)
      else none

theorem parseCalls_succ {n : ℕ} {state : State} {text rest : Bytes} {t : State × Request}
    (h : decoder.parse (state, {}) text = .done t []) (hf : t.2.finished = true) :
    parseCalls (n + 1) state (text ++ rest) =
      (parseCalls n t.1 rest).map fun r => (t.2 :: r.1, r.2) := by
  simp [parseCalls, parse_eq, decoder.parse_append_done h rest, hf]

/-- A stream of request texts is read back as the requests it was printed from, to the last byte,
and leaves the parser as it was new. -/
theorem parseCalls_hamRequestGetData (rs : List HAMRequest) (h : ∀ r ∈ rs, Sendable r) :
    parseCalls rs.length .methodStart (rs.flatMap hamRequestGetData) =
      some (rs.map received, .methodStart, []) := by
  induction rs with
  | nil => rfl
  | cons r rs ih =>
    have hr := parse_hamRequestGetData (h r (by simp))
    rw [List.flatMap_cons, List.length_cons, parseCalls_succ hr rfl,
      ih fun s hs => h s (by simp [hs])]
    rfl

/-- A sample of the client's requests: the fetch of the module list and a call sign lookup. -/
def sampleRequests : List HAMRequest :=
  [{ method := bytes "GET", uri := bytes "/modules" },
   { method := bytes "POST", uri := bytes "/dxcc", content := some (bytes "ok2jrq"),
     headers := [⟨bytes "username", bytes "a b"⟩] }]

theorem sampleRequests_sendable : ∀ r ∈ sampleRequests, Sendable r := by
  intro r hr
  fin_cases hr <;>
    exact ⟨by decide, by decide, by decide, by decide, by decide, by decide, by decide⟩

theorem parseCalls_sampleRequests :
    (∀ r ∈ sampleRequests, Sendable r) ∧
      parseCalls 2 .methodStart (sampleRequests.flatMap hamRequestGetData) =
        some (sampleRequests.map received, .methodStart, []) :=
  ⟨sampleRequests_sendable, parseCalls_hamRequestGetData sampleRequests sampleRequests_sendable⟩

end Hamlog.Wire
