import Hamlog.Library.ParserRuns

/-! # Round trip of replies

The text that the server's `Reply::toString` prints, read by the client's
parser. The reading is stated over buffers of any size with room for the
reply, and then for the buffers the library declares.
-/
namespace Hamlog.Wire
open Foundation Server Library

/-- A reply whose headers the wire format can carry. -/
structure WellFormed (reply : Reply) : Prop where
  contentType : ∀ c ∈ reply.contentType, isControl c = false
  added : ∀ h ∈ reply.added, h.Clean

instance (reply : Reply) : Decidable (WellFormed reply) :=
  decidable_of_iff
    (reply.contentType.all (fun c => !isControl c) = true ∧ ∀ h ∈ reply.added, h.Clean)
    ⟨fun ⟨a, b⟩ => ⟨by simpa using a, b⟩, fun ⟨a, b⟩ => ⟨by simpa using a, b⟩⟩

theorem WellFormed.sentHeaders {reply : Reply} (h : WellFormed reply) :
    ∀ k ∈ reply.sentHeaders, k.Clean :=
  Reply.sentHeaders_clean h.contentType h.added

namespace WellFormed
variable {reply : Reply} (h : WellFormed reply)
include h

theorem setStatus (status : Status) : WellFormed (reply.setStatus status) :=
  ⟨h.contentType, h.added⟩

theorem setContent (content : Bytes) : WellFormed (reply.setContent content) :=
  ⟨h.contentType, h.added⟩

theorem setContentType {contentType : Bytes} (hclean : ∀ c ∈ contentType, isControl c = false) :
    WellFormed (reply.setContentType contentType) :=
  ⟨hclean, h.added⟩

theorem addHeader {header : Header} (hclean : header.Clean) : WellFormed (reply.addHeader header) :=
  ⟨h.contentType, List.forall_mem_append.mpr ⟨h.added, List.forall_mem_singleton.mpr hclean⟩⟩

end WellFormed

theorem wellFormed_new : WellFormed {} := by decide

/-- The texts of the reply are shorter than the buffers of the client, and its content is a C
string. -/
structure FitsClient (reply : Reply) : Prop where
  contentType : reply.contentType.length < 512
  added : ∀ h ∈ reply.added, h.name.length < 512 ∧ h.value.length < 512
  content : reply.content.length ≤ 65534
  content_cstr : 0 ∉ reply.content

instance (reply : Reply) : Decidable (FitsClient reply) :=
  decidable_of_iff (reply.contentType.length < 512 ∧
      (∀ h ∈ reply.added, h.name.length < 512 ∧ h.value.length < 512) ∧
      reply.content.length ≤ 65534 ∧ 0 ∉ reply.content)
    ⟨fun ⟨a, b, c, d⟩ => ⟨a, b, c, d⟩, fun ⟨a, b, c, d⟩ => ⟨a, b, c, d⟩⟩

namespace FitsClient
variable {reply : Reply} (h : FitsClient reply)
include h

theorem setStatus (status : Status) : FitsClient (reply.setStatus status) :=
  ⟨h.contentType, h.added, h.content, h.content_cstr⟩

theorem setContent {content : Bytes} (hlength : content.length ≤ 65534) (hcstr : 0 ∉ content) :
    FitsClient (reply.setContent content) :=
  ⟨h.contentType, h.added, hlength, hcstr⟩

theorem setContentType {contentType : Bytes} (hlength : contentType.length < 512) :
    FitsClient (reply.setContentType contentType) :=
  ⟨hlength, h.added, h.content, h.content_cstr⟩

theorem addHeader {header : Header} (hname : header.name.length < 512)
    (hvalue : header.value.length < 512) : FitsClient (reply.addHeader header) :=
  ⟨h.contentType, List.forall_mem_append.mpr ⟨h.added, List.forall_mem_singleton.mpr
    ⟨hname, hvalue⟩⟩, h.content, h.content_cstr⟩

end FitsClient

theorem fitsClient_new : FitsClient {} := by decide

/-- The reply as the client stores it. -/
def receivedReply (reply : Reply) : HAMReply where
  status := reply.status.code
  content := reply.content.filter (· ≠ cr)
  headers := reply.sentHeaders
  finished := true

/-- Buffers with room for all texts of a reply. -/
structure RoomFor (fits : Region → ℕ → Bool) (reply : Reply) : Prop where
  headers : ∀ h ∈ reply.sentHeaders, Room fits .headerName h.name.length ∧
    Room fits .headerValue h.value.length
  content : Room fits .content (reply.content.filter (· ≠ cr)).length

theorem roomFor_free (reply : Reply) : RoomFor (fun _ _ => true) reply :=
  ⟨fun _ _ => ⟨room_free _ _, room_free _ _⟩, room_free _ _⟩

theorem roomFor_declared {reply : Reply} (h : FitsClient reply) : RoomFor declared reply := by
  have hnames : (bytes "Content-Type").length < 512 ∧ contentLengthName.length < 512 := by
    decide
  constructor
  · intro k hk
    simp only [Reply.sentHeaders, Reply.headers, List.mem_cons] at hk
    rcases hk with rfl | rfl | hk
    · exact ⟨room_declared hnames.1, room_declared h.contentType⟩
    · have hdigits := length_decimal_le (k := 5) (by norm_num) (show reply.content.length < 10 ^ 5
        from h.content.trans_lt (by norm_num))
      exact ⟨room_declared hnames.2, room_declared (hdigits.trans_lt (by decide))⟩
    · exact ⟨room_declared (h.added k hk).1, room_declared (h.added k hk).2⟩
  · have hle := List.length_filter_le (· ≠ cr) reply.content
    have hmax := h.content
    exact room_declared (show _ < 65535 by omega)

/-- The head of a reply, up to the blank line. -/
theorem parse_replyHead {fits : Region → ℕ → Bool} {reply : Reply} (h : WellFormed reply)
    (hroom : RoomFor fits reply) {p : HAMParser} (hp : p.Idle) :
    ∃ q : HAMParser, q.state = .headerLineStart ∧
      (decoder fits).parse (p, {}) (reply.status.line ++ reply.sentHeaders.flatMap headerLine) =
        .more (q, { status := reply.status.code, headers := reply.sentHeaders }) := by
  have h1 := parse_statusLine fits p hp.state_eq reply.status
  obtain ⟨q, hq, h2⟩ := parse_headers fits { p with state := .headerLineStart } rfl
    { status := reply.status.code } rfl h.sentHeaders hroom.headers
  exact ⟨q, hq, (decoder fits).more_trans h1 h2⟩

/-- A printed reply is read to its last byte, which finishes it. -/
theorem parse_toString {fits : Region → ℕ → Bool} {reply : Reply} (h : WellFormed reply)
    (hcontent : reply.content = [] ∨ ∃ c ∈ reply.content, c ≠ cr)
    (hroom : RoomFor fits reply) {p : HAMParser} (hp : p.Idle) :
    ∃ q : HAMParser, q.Idle ∧
      (decoder fits).parse (p, {}) reply.toString.1 = .done (q, receivedReply reply) [] := by
  obtain ⟨q, hq, hhead⟩ := parse_replyHead h hroom hp
  rw [Reply.toString_text, List.append_assoc (_ ++ _), (decoder fits).parse_append_more hhead]
  have hdecl := declaresContent_sent reply
    { status := reply.status.code, headers := reply.sentHeaders } rfl
  refine ⟨hamParserReset q, hamParserReset_idle q, ?_⟩
  by_cases hc : reply.content = []
  · have hcl := Bool.eq_false_iff.mpr (mt hdecl.mp (not_not.mpr hc))
    simp only [hc, if_true, List.append_nil]
    rw [parse_end fits q hq _ rfl hcl]
    simp [receivedReply, hc]
  · have hblank := parse_blank fits q hq _ rfl (hdecl.mpr hc)
    have hne : reply.content.filter (· ≠ cr) ≠ [] := by
      obtain ⟨c, hc, hcr⟩ := hcontent.resolve_left hc
      exact List.ne_nil_of_mem (List.mem_filter.mpr ⟨hc, by simpa using hcr⟩)
    have hbody := parse_content fits { q with state := .contentStart } rfl
      { status := reply.status.code, headers := reply.sentHeaders } rfl hne (by simp)
      hroom.content
    simp only [hc, if_false]
    rw [(decoder fits).parse_append_more hblank, hbody]
    rfl

/-- A content of carriage returns only is announced but not printed, and the line end behind it is
taken for another blank line. -/
theorem parse_strippedContent {fits : Region → ℕ → Bool} {reply : Reply} (h : WellFormed reply)
    (hne : reply.content ≠ []) (hcr : reply.content.filter (· ≠ cr) = [])
    (hroom : RoomFor fits reply) {p : HAMParser} (hp : p.Idle) :
    ∃ q : HAMParser × HAMReply, (decoder fits).parse (p, {}) reply.toString.1 = .more q := by
  obtain ⟨q, hq, hhead⟩ := parse_replyHead h hroom hp
  let r : HAMReply := { status := reply.status.code, headers := reply.sentHeaders }
  have hdecl : declaresContent r = true := (declaresContent_sent reply r rfl).mpr hne
  have hblank := parse_blank fits q hq r rfl hdecl
  have hagain := parse_blank_again fits { q with state := .contentStart } rfl r rfl hdecl
  refine ⟨({ q with state := .contentStart }, r), ?_⟩
  rw [Reply.toString_text, List.append_assoc (_ ++ _), (decoder fits).parse_append_more hhead]
  simp only [hne, if_false, hcr, List.nil_append]
  exact (decoder fits).more_trans hblank hagain

/-- The client reads back every reply of the server: each byte is accepted, only the last one
finishes the reply, and status, headers and content are those of the server, the content without
its carriage returns. -/
theorem hamParserParse_toString (reply : Reply) (p : HAMParser) (hp : p.Idle)
    (h : WellFormed reply) (hfit : FitsClient reply)
    (hcontent : reply.content = [] ∨ ∃ c ∈ reply.content, c ≠ cr) :
    (∃ q r, hamParserParse p {} reply.toString.1 = some (reply.toString.1.length - 1, q, r) ∧
      q.Idle ∧ r.finished = true ∧ r.status = reply.status.code ∧
      r.headers = reply.toString.2.headers ∧
      hamReplyGetContent r = reply.content.filter (· ≠ cr)) ∧
    ∀ n < reply.toString.1.length, ∃ q r,
      hamParserParse p {} (reply.toString.1.take n) = some (n, q, r) ∧ r.finished = false := by
  obtain ⟨q, hq, hparse⟩ := parse_toString h hcontent (roomFor_declared hfit) hp
  constructor
  · refine ⟨q, receivedReply reply, ?_, hq, rfl, rfl, reply.toString_headers.symm, ?_⟩
    · simp [hamParserParse_eq, hparse]
    · exact cstr_of_notMem fun h0 => hfit.content_cstr (List.mem_of_mem_filter h0)
  · intro n hn
    rw [← List.take_append_drop n reply.toString.1] at hparse
    obtain ⟨u, hu, -⟩ := (decoder declared).more_of_done_append hparse (by
      rw [List.length_drop, List.length_nil]
      omega)
    refine ⟨u.1, u.2, ?_, (decoder declared).more_unfinished rfl hu⟩
    simp [hamParserParse_eq, hu, hn.le]

/-- An answer with an added header and a content of two lines. -/
def sampleReply : Reply where
  status := .badRequest
  added := [⟨bytes "X-Call", bytes "ok2jrq"⟩]
  content := bytes "call\r\nok2jrq"

theorem hamParserParse_sampleReply :
    (∃ q r, hamParserParse {} {} sampleReply.toString.1 =
        some (sampleReply.toString.1.length - 1, q, r) ∧
      q.Idle ∧ r.finished = true ∧ r.status = sampleReply.status.code ∧
      r.headers = sampleReply.toString.2.headers ∧
      hamReplyGetContent r = sampleReply.content.filter (· ≠ cr)) ∧
    ∀ n < sampleReply.toString.1.length, ∃ q r,
      hamParserParse {} {} (sampleReply.toString.1.take n) = some (n, q, r) ∧
        r.finished = false :=
  hamParserParse_toString sampleReply {} ⟨rfl, rfl⟩ (by decide) (by decide)
    (.inr ⟨ch 'c', by decide, by decide⟩)

end Hamlog.Wire
