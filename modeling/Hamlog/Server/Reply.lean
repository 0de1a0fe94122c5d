import Hamlog.Wire.CharClass
import Mathlib.Data.List.DropRight

/-! # The server's replies

`Reply::toString` prints a reply. The two headers that the constructor puts in
front of all others are fields of their own, so a reply without them cannot be
built.
-/
namespace Hamlog.Server
open Foundation Wire

inductive Status where
  | ok | movedPermanently | movedTemporarily | notModified | badRequest | unauthorized
  | forbidden | notFound | internalServerError
  deriving DecidableEq, Repr

def Status.code : Status → ℕ
  | .ok => 200
  | .movedPermanently => 301
  | .movedTemporarily => 302
  | .notModified => 304
  | .badRequest => 400
  | .unauthorized => 401
  | .forbidden => 403
  | .notFound => 404
  | .internalServerError => 500

def Status.line : Status → Bytes
  | .ok => bytes "HTTP/1.1 200 OK\r\n"
  | .movedPermanently => bytes "HTTP/1.0 301 Moved Permanently\r\n"
  | .movedTemporarily => bytes "HTTP/1.0 302 Moved Temporarily\r\n"
  | .notModified => bytes "HTTP/1.0 304 Not Modified\r\n"
  | .badRequest => bytes "HTTP/1.0 400 Bad Request\r\n"
  | .unauthorized => bytes "HTTP/1.0 401 Unauthorized\r\n"
  | .forbidden => bytes "HTTP/1.0 403 Forbidden\r\n"
  | .notFound => bytes "HTTP/1.0 404 Not Found\r\n"
  | .internalServerError => bytes "HTTP/1.0 500 Internal Server Error\r\n"

/-- `contentType` and `contentLength` are the values of `m_headers[0]` and `m_headers[1]`, and
`added` the headers behind them. -/
structure Reply where
  status : Status := .ok
  contentType : Bytes := bytes "text/hamlog"
  contentLength : Bytes := bytes "0"
  added : List Header := []
  content : Bytes := []
  async : Bool := false
  deriving DecidableEq, Repr

namespace Reply

/-- The vector `m_headers`. -/
def headers (reply : Reply) : List Header :=
  ⟨bytes "Content-Type", reply.contentType⟩ ::
    ⟨contentLengthName, reply.contentLength⟩ :: reply.added

def setStatus (reply : Reply) (status : Status) : Reply := { reply with status }

def setContentType (reply : Reply) (contentType : Bytes) : Reply := { reply with contentType }

def setContent (reply : Reply) (content : Bytes) : Reply := { reply with content }

def setAsync (reply : Reply) (async : Bool) : Reply := { reply with async }

def addHeader (reply : Reply) (header : Header) : Reply :=
  { reply with added := reply.added ++ [header] }

/-- The text of a reply, and the reply that printing leaves: the length is stored before the
carriage returns are taken out of the content. -/
def toString (reply : Reply) : Bytes × Reply :=
  let reply := { reply with contentLength := decimal reply.content.length }
  let buffers := reply.status.line ++ reply.headers.flatMap headerLine ++ crlf
  if reply.content = [] then (buffers, reply)
  else
    let reply := { reply with content := reply.content.filter (· ≠ cr) }
    (buffers ++ reply.content ++ crlf, reply)

/-- The headers as they are sent: with the length of the content. -/
def sentHeaders (reply : Reply) : List Header :=
  { reply with contentLength := decimal reply.content.length }.headers

theorem toString_headers (reply : Reply) : reply.toString.2.headers = reply.sentHeaders := by
  by_cases h : reply.content = [] <;> simp [toString, sentHeaders, headers, h]

theorem toString_text (reply : Reply) :
    reply.toString.1 = reply.status.line ++ reply.sentHeaders.flatMap headerLine ++ crlf ++
      if reply.content = [] then [] else reply.content.filter (· ≠ cr) ++ crlf := by
  by_cases h : reply.content = []
  · simp [toString, sentHeaders, headers, h]
  · simp [toString, sentHeaders, headers, h]

/-- The headers of a reply whose own headers are clean. -/
theorem sentHeaders_clean {reply : Reply} (htype : ∀ c ∈ reply.contentType, isControl c = false)
    (hadded : ∀ h ∈ reply.added, h.Clean) : ∀ h ∈ reply.sentHeaders, h.Clean := by
  have hct : ∀ c ∈ bytes "Content-Type", isToken c := List.all_eq_true.mp (by decide)
  have hne : bytes "Content-Type" ≠ [] ∧ contentLengthName ≠ [] := by decide
  intro h hh
  simp only [sentHeaders, headers, List.mem_cons] at hh
  rcases hh with rfl | rfl | hh
  · exact ⟨hne.1, hct, htype⟩
  · exact ⟨hne.2, contentLengthName_token,
      fun c hc => isControl_of_isDigit (isDigit_of_mem_decimal hc)⟩
  · exact hadded h hh

/-! ## Printing a reply again -/

/-- The status line, the header lines and the blank line, with which the text begins. -/
def sentHead (reply : Reply) : Bytes :=
  reply.status.line ++ reply.sentHeaders.flatMap headerLine ++ crlf

/-- The bytes that are sent between the blank line and the final line break. -/
def sentBody (reply : Reply) : Bytes :=
  (reply.toString.1.drop reply.sentHead.length).rdrop crlf.length

/-- The reply behind `n` calls of `toString`. -/
def printed (reply : Reply) : ℕ → Reply
  | 0 => reply
  | n + 1 => (reply.printed n).toString.2

theorem sentBody_eq (reply : Reply) : reply.sentBody = reply.content.filter (· ≠ cr) := by
  rw [sentBody, toString_text, sentHead, List.drop_left]
  by_cases h : reply.content = []
  · simp [h]
  · rw [if_neg h, List.rdrop, List.length_append, Nat.add_sub_cancel, List.take_left]

/-- A reply with clean content is printed over and over as it is: only its length changes. -/
theorem toString_of_clean {reply : Reply} (h : cr ∉ reply.content) :
    reply.toString.2 = { reply with contentLength := decimal reply.content.length } := by
  have hfilter : reply.content.filter (· ≠ cr) = reply.content :=
    List.filter_eq_self.mpr fun c hc => by simpa using fun hcr : c = cr => h (hcr ▸ hc)
  by_cases hempty : reply.content = []
  · simp [toString, hempty]
  · simp only [toString, hempty, if_false, hfilter]

/-- The header written for the content counts the bytes sent exactly when no byte is dropped. -/
theorem sentHeaders_length_iff (reply : Reply) :
    reply.sentHeaders[1]? = some ⟨contentLengthName, decimal reply.sentBody.length⟩ ↔
      cr ∉ reply.content := by
  have hcount : (reply.content.filter (· ≠ cr)).length = reply.content.length ↔
      cr ∉ reply.content := by
    rw [List.length_filter_eq_length_iff]
    constructor
    · intro hall hmem
      simpa using hall cr hmem
    · intro hnot c hc
      simpa using fun hcr : c = cr => hnot (hcr ▸ hc)
  rw [sentBody_eq, ← hcount]
  simp only [sentHeaders, headers, List.getElem?_cons_succ, List.getElem?_cons_zero,
    Option.some.injEq, Header.mk.injEq, true_and, decimal_injective.eq_iff]
  exact eq_comm

theorem printed_of_clean {reply : Reply} (h : cr ∉ reply.content) (n : ℕ) :
    ∃ length, reply.printed n = { reply with contentLength := length } := by
  induction n with
  | zero => exact ⟨reply.contentLength, rfl⟩
  | succ n ih =>
    obtain ⟨length, ih⟩ := ih
    rw [printed, ih]
    have hclean : cr ∉ { reply with contentLength := length }.content := h
    exact ⟨_, toString_of_clean hclean⟩

/-- Every call of `toString` announces the body it sends, and all calls print one text, exactly when
the content has no carriage return. -/
theorem contentLength_agrees_iff (reply : Reply) :
    (∀ n, (reply.printed n).sentHeaders[1]? =
        some ⟨contentLengthName, decimal (reply.printed n).sentBody.length⟩ ∧
      (reply.printed n).toString.1 = reply.toString.1) ↔ cr ∉ reply.content := by
  constructor
  · intro hall
    exact (sentHeaders_length_iff reply).mp (hall 0).1
  · intro hclean n
    obtain ⟨length, hprinted⟩ := printed_of_clean hclean n
    refine ⟨(sentHeaders_length_iff _).mpr (by rw [hprinted]; exact hclean), ?_⟩
    rw [hprinted, toString_text, toString_text]
    rfl

/-- A content of three bytes with a carriage return is announced as three bytes and sent as two; the
second call announces two. -/
theorem contentLength_counts_dropped :
    ¬∀ reply : Reply, ∀ n, (reply.printed n).sentHeaders[1]? =
        some ⟨contentLengthName, decimal (reply.printed n).sentBody.length⟩ ∧
      (reply.printed n).toString.1 = reply.toString.1 := by
  intro hall
  have hfirst := (hall { content := [ch 'a', cr, ch 'b'] } 0).1
  exact (sentHeaders_length_iff _).mp hfirst (by simp [printed])

end Reply
end Hamlog.Server
