import Hamlog.Library.Connection
import Hamlog.Server.Responders.LogBook
import Hamlog.Wire.RequestGrammar
import Hamlog.Wire.RequestStream

/-! # Fetching the logbook by a call

`ham_logbook_fetch_with_call` copies the call into the URI of its request. From
there it goes through the request parser, the dispatch of the module manager and
the logbook responder, which takes what is behind `/logbook/call/` as the filter.
-/
namespace Hamlog.Wire
open Foundation Library Server Server.RequestParser

/-- The array `uri` with the call copied behind its text: `strncpy` writes 40 bytes. -/
def callUriBuffer (call : Bytes) : Bytes :=
  LogBook.callUri ++ (cstr call ++ List.replicate 40 0).take 40 ++ List.replicate 26 0

def callRequest (call : Bytes) : HAMRequest where
  method := bytes "GET"
  uri := cstr (callUriBuffer call)

def hamLogbookFetchWithCall (connection : HAMConnection) (call : Bytes) (handler : Option Handler)
    (uiData : ℕ) : HAMConnection × List Event :=
  hamConnectionSend connection (callRequest call) handler uiData

/-- The text that the logbook responder gives to `where("callsign", ...)`. -/
def callFilter (request : Request) : Option Bytes :=
  if request.uri = bytes "/logbook" ∨ request.uri = bytes "/logbook/add" ∨
      request.uri = bytes "/logbook/remove" then none
  else if LogBook.callUri.isPrefixOf request.uri then
    some (request.uri.drop LogBook.callUri.length)
  else none

/-- The responder sends the records that its select finds under this condition. -/
theorem handleRequest_callFilter {δ : Type*} (backend : SQLite3 δ) (account : Account)
    {request : Request} {call : Bytes} (h : callFilter request = some call) (book : LogBook)
    (db : δ) (reply : Reply) :
    LogBook.handleRequest backend account request book db reply =
      (true, LogBook.sendLogs backend account
        { book with getLogsQuery := book.getLogsQuery.where_ (bytes "callsign") call } db reply) := by
  unfold callFilter at h
  split_ifs at h with hother hcall
  cases h
  simp only [not_or] at hother
  rw [LogBook.handleRequest, if_neg hother.1, if_neg hother.2.1, if_neg hother.2.2, if_pos hcall]

/-- The text is read to its last byte as one request, a module manager with a logbook gives it to
the logbook in every session that is logged in, and the logbook filters by the call. -/
def FiltersBy (text call : Bytes) : Prop :=
  ∃ req, decoder.parse initial text = .done (.methodStart, req) [] ∧
    (∀ {κ σ : Type} (manager : ModuleManager κ σ) (context : κ) (state : σ)
      (logbook : Responder κ σ), manager.find (bytes "/logbook") = some logbook →
      manager.isAuthenticated context state = true →
      manager.called context state req = some logbook) ∧
    callFilter req = some call

/-- The request goes out over the connection, and its text filters by the call. -/
def FetchesCall (connection : HAMConnection) (call : Bytes) (handler : Option Handler)
    (uiData : ℕ) : Prop :=
  ∃ text, .write connection.fd text ∈
      (hamLogbookFetchWithCall connection call handler uiData).2 ∧ FiltersBy text call

theorem callRequest_uri {call : Bytes} (h : 0 ∉ call) :
    (callRequest call).uri = LogBook.callUri ++ call.take 40 := by
  have huri : 0 ∉ LogBook.callUri := by decide
  have hcall : 0 ∉ call.take 40 := fun hmem => h (List.mem_of_mem_take hmem)
  have hzeros (m n : ℕ) : cstr (List.replicate m 0 ++ List.replicate n 0) = [] := by
    rw [List.replicate_append_replicate]
    cases m + n <;> rfl
  rw [callRequest, callUriBuffer, List.append_assoc, cstr_append huri, cstr_of_notMem h,
    List.take_append, List.append_assoc, cstr_append hcall, List.take_replicate, hzeros,
    List.append_nil]

/-- The filter is what stands behind the path of the calls. -/
theorem callFilter_append {req : Request} {call : Bytes} (h : req.uri = LogBook.callUri ++ call) :
    callFilter req = some call := by
  have hcall : LogBook.callUri.isPrefixOf req.uri = true := by
    rw [h, List.isPrefixOf_iff_prefix]
    exact List.prefix_append _ _
  have hother : req.uri ∉ [bytes "/logbook", bytes "/logbook/add", bytes "/logbook/remove"] := by
    intro hmem
    have hnone : [bytes "/logbook", bytes "/logbook/add", bytes "/logbook/remove"].all
        (fun uri => !LogBook.callUri.isPrefixOf uri) = true := by decide
    have hnot := List.all_eq_true.mp hnone _ hmem
    rw [hcall] at hnot
    exact absurd hnot (by decide)
  simp only [List.mem_cons, List.not_mem_nil, or_false] at hother
  rw [callFilter, if_neg hother, if_pos hcall, h, List.drop_left]

theorem cutUri_append (call : Bytes) : cutUri (LogBook.callUri ++ call) = bytes "/logbook" := by
  have huri : LogBook.callUri = ch '/' :: (bytes "logbook" ++ ch '/' :: bytes "call/") := by decide
  have hplain : ∀ c ∈ bytes "logbook", decide (c ≠ ch '/') = true := by decide
  rw [huri, List.cons_append, cutUri, List.append_assoc, List.takeWhile_append_of_pos hplain,
    List.cons_append, List.takeWhile_cons_of_neg (by simp), List.append_nil]
  decide

/-- The part of a text in front of its first blank, and the part behind it. -/
def cutBlank (text : Bytes) : Bytes × Bytes :=
  (text.takeWhile (· ≠ ch ' '), (text.dropWhile (· ≠ ch ' ')).tail)

theorem cutBlank_append {word : Bytes} (h : ∀ c ∈ word, c ≠ ch ' ') (text : Bytes) :
    cutBlank (word ++ text) = (word ++ (cutBlank text).1, (cutBlank text).2) := by
  have hword : ∀ c ∈ word, decide (c ≠ ch ' ') = true := fun c hc => decide_eq_true (h c hc)
  rw [cutBlank, List.takeWhile_append_of_pos hword, List.dropWhile_append_of_pos hword]
  rfl

theorem cutBlank_blank (text : Bytes) : cutBlank (ch ' ' :: text) = ([], text) := by
  simp [cutBlank]

theorem cutBlank_word {word : Bytes} (h : ∀ c ∈ word, c ≠ ch ' ') (text : Bytes) :
    cutBlank (word ++ ch ' ' :: text) = (word, text) := by
  rw [cutBlank_append h, cutBlank_blank, List.append_nil]

/-- The URI of a request stands between the first two blanks of its text. -/
theorem cutBlank_requestText (parts : RequestText) :
    (cutBlank (cutBlank parts.text).2).1 = parts.line.uri := by
  have hmethod : ∀ c ∈ parts.line.method, c ≠ ch ' ' := fun c hc =>
    ne_of_isToken (parts.line.method_token.2 c hc) (by decide)
  have huri : ∀ c ∈ parts.line.uri, c ≠ ch ' ' := fun c hc => (parts.line.uri_clean c hc).1
  have hversion : bytes " HTTP/" = ch ' ' :: bytes "HTTP/" := rfl
  simp only [RequestText.text, RequestLine.text, lineHead, hversion, List.append_assoc,
    List.cons_append, cutBlank_word hmethod, cutBlank_word huri]

/-- The text of the client, cut in the same way. -/
theorem cutBlank_callRequest {call : Bytes} (h : 0 ∉ call) :
    (cutBlank (cutBlank (hamRequestGetData (callRequest call))).2).1 =
      LogBook.callUri ++ (call.take 40).takeWhile (· ≠ ch ' ') := by
  have hget : ∀ c ∈ bytes "GET", c ≠ ch ' ' := by decide
  have hpath : ∀ c ∈ LogBook.callUri, c ≠ ch ' ' := by decide
  have hversion : bytes " HTTP/1.1\r\n" = ch ' ' :: bytes "HTTP/1.1\r\n" := rfl
  have hmethod : (callRequest call).method = bytes "GET" := rfl
  have hcall (rest : Bytes) : (cutBlank (call.take 40 ++ ch ' ' :: rest)).1 =
      (call.take 40).takeWhile (· ≠ ch ' ') := by
    rw [cutBlank, List.takeWhile_append]
    split_ifs with hall
    · rw [List.takeWhile_cons_of_neg (by simp), List.append_nil]
      exact (List.takeWhile_prefix _).eq_of_length hall |>.symm
    · rfl
  simp only [hamRequestGetData, hversion, hmethod, callRequest_uri h, List.append_assoc,
    List.cons_append, List.nil_append, cutBlank_word hget, cutBlank_append hpath, hcall]

/-- A request that is read from the client's text has a URI that ends at the first blank of the
call, and no control bytes. -/
theorem parse_callRequest {call : Bytes} (h : 0 ∉ call) {s : State × Request}
    (hparse : decoder.parse initial (hamRequestGetData (callRequest call)) = .done s []) :
    s.2.uri = LogBook.callUri ++ (call.take 40).takeWhile (· ≠ ch ' ') ∧ Uri s.2.uri := by
  obtain ⟨parts, htext, hreq⟩ := Reading.finishes (.line .start) hparse
  have huri : s.2.uri = parts.line.uri := by rw [hreq]; rfl
  refine ⟨?_, huri ▸ parts.line.uri_clean⟩
  rw [huri, ← cutBlank_requestText, ← htext, List.nil_append, cutBlank_callRequest h]

theorem callRequest_sendable {call : Bytes} (h : 0 ∉ call) (hlen : call.length ≤ 40)
    (hclean : Uri call) : Sendable (callRequest call) := by
  have huri : Uri (LogBook.callUri ++ call) := fun c hc => by
    rcases List.mem_append.mp hc with hc | hc
    · exact (show ∀ c ∈ LogBook.callUri, c ≠ ch ' ' ∧ isControl c = false by decide) c hc
    · exact hclean c hc
  refine ⟨?_, ?_, ?_, ?_, ?_, ?_, ?_⟩
  · exact show bytes "GET" ≠ [] by decide
  · exact show ∀ c ∈ bytes "GET", isToken c by decide
  · rwa [callRequest_uri h, List.take_of_length_le hlen]
  all_goals simp [callRequest]

/-- The text of the client filters by its call exactly when the call fits into the copy and has no
byte at which the request parser ends the URI or gives up. -/
theorem filtersBy_callRequest {call : Bytes} (h : 0 ∉ call) :
    FiltersBy (hamRequestGetData (callRequest call)) call ↔ call.length ≤ 40 ∧ Uri call := by
  constructor
  · rintro ⟨req, hparse, -, hfilter⟩
    obtain ⟨huri, hclean⟩ := parse_callRequest h hparse
    rw [callFilter_append huri, Option.some.injEq] at hfilter
    rw [hfilter] at huri
    refine ⟨?_, fun c hc => hclean c (huri ▸ List.mem_append_right _ hc)⟩
    calc call.length = ((call.take 40).takeWhile (· ≠ ch ' ')).length := by rw [hfilter]
      _ ≤ (call.take 40).length := (List.takeWhile_prefix _).length_le
      _ ≤ 40 := List.length_take_le 40 call
  · rintro ⟨hlen, hclean⟩
    have huri : (received (callRequest call)).uri = LogBook.callUri ++ call :=
      (callRequest_uri h).trans (by rw [List.take_of_length_le hlen])
    refine ⟨received (callRequest call),
      parse_hamRequestGetData (callRequest_sendable h hlen hclean), ?_, callFilter_append huri⟩
    intro κ σ manager context state logbook hfind hauth
    have hcut : cutUri (received (callRequest call)).uri = bytes "/logbook" := by
      rw [huri, cutUri_append]
    rw [ModuleManager.called]
    simp only [hcut, hfind]
    rw [if_neg (by decide)]
    simp [hauth]

/-- Over an open connection a call of at most 40 bytes without blanks and control bytes is what the
logbook is filtered by; no other call is. -/
theorem fetchesCall_iff (connection : HAMConnection) {call : Bytes} (h : 0 ∉ call)
    (handler : Option Handler) (uiData : ℕ) :
    FetchesCall connection call handler uiData ↔
      connection.fd ≠ -1 ∧ call.length ≤ 40 ∧ Uri call := by
  rw [← filtersBy_callRequest h, FetchesCall, hamLogbookFetchWithCall, hamConnectionSend]
  by_cases hfd : connection.fd = -1
  · simp [hfd]
  · simp [hfd]

theorem fetchesCall_portable : FetchesCall { fd := 4 } (bytes "OK1/P") none 0 :=
  (fetchesCall_iff { fd := 4 } (by decide) none 0).mpr
    ⟨by decide, by decide, show ∀ c ∈ bytes "OK1/P", c ≠ ch ' ' ∧ isControl c = false by decide⟩

/-- At a blank in the call the URI ends, and the server refuses the request. -/
theorem not_fetchesCall_blank : ¬∀ (connection : HAMConnection) (call : Bytes)
    (handler : Option Handler) (uiData : ℕ), connection.fd ≠ -1 → 0 ∉ call →
      FetchesCall connection call handler uiData := by
  intro hall
  obtain ⟨text, hwrite, hfilters⟩ := hall { fd := 4 } (bytes "OK 1") none 0 (by decide) (by decide)
  have htext : text = hamRequestGetData (callRequest (bytes "OK 1")) := by
    simpa [hamLogbookFetchWithCall, hamConnectionSend] using hwrite
  have hclean := ((filtersBy_callRequest (by decide)).mp (htext ▸ hfilters)).2
  exact (hclean (ch ' ') (by decide)).1 rfl

end Hamlog.Wire
