import Hamlog.Library.Parser
import Hamlog.Server.Reply

/-! # Stretches of a reply in the client's parser

What the reply decoder does on each part of a well-formed reply, over buffers
that hold the stored text and the zero behind it. Every lemma reads its part
silently; only the line end behind the headers or behind the content finishes
the reply.
-/
namespace Hamlog.Library
open Foundation Wire Server

variable (fits : Region → ℕ → Bool)

/-- The places of a buffer that a text of the given length and its final zero take. -/
def Room (region : Region) (length : ℕ) : Prop :=
  ∀ i ≤ length, fits region i = true

theorem room_declared {region : Region} {length : ℕ} (h : length < region.size) :
    Room declared region length := fun i hi => by
  simp only [declared, decide_eq_true_eq]
  omega

theorem room_free (region : Region) (length : ℕ) : Room (fun _ _ => true) region length :=
  fun _ _ => rfl

/-- A byte that leads to the next state and leaves buffers and reply alone. -/
theorem parse_char {p : HAMParser} (q : HAMParser) {r : HAMReply} {c : Byte}
    (hs : hamParserConsume fits p r c = .ok (q, r)) (hf : r.finished = false) (rest : Bytes) :
    (decoder fits).parse (p, r) (c :: rest) = (decoder fits).parse (q, r) rest :=
  (decoder fits).parse_cons_more hs hf

/-- The status line is read without touching a buffer. -/
theorem parse_statusLine (p : HAMParser) (hp : p.state = .httpVersionH) (status : Status) :
    (decoder fits).parse (p, {}) status.line =
      .more ({ p with state := .headerLineStart }, { status := status.code }) := by
  obtain ⟨state, name, value, ptr⟩ := p
  subst hp
  cases status <;> rfl

theorem parse_headerName (p : HAMParser) (hp : p.state = .headerLineStart) (r : HAMReply)
    (hf : r.finished = false) {n : Bytes} (hne : n ≠ []) (hn : ∀ c ∈ n, isToken c)
    (hroom : Room fits .headerName n.length) :
    (decoder fits).parse (p, r) n =
      .more ({ p with state := .headerName, ptr := some .headerName, headerName := n }, r) := by
  let f : Bytes → HAMParser × HAMReply := fun w =>
    if w = [] then (p, r)
    else ({ p with state := .headerName, ptr := some .headerName, headerName := w }, r)
  have h := (decoder fits).parse_accumulate f n fun w a v hv => by
    have ha := hn a (by simp [hv])
    have hfit : fits .headerName w.length = true := hroom _ (by simp [hv])
    obtain ⟨h1, h2, h3⟩ := isToken_iff.mp ha
    have hcr : a ≠ ch '\r' := ne_of_isToken ha (by decide)
    have hsp : a ≠ ch ' ' := ne_of_isToken ha (by decide)
    have hht : a ≠ ch '\t' := ne_of_isToken ha (by decide)
    have hcolon : a ≠ ch ':' := ne_of_isToken ha (by decide)
    by_cases hw : w = []
    · subst hw
      simp at hfit
      simp [f, decoder, hamParserConsume, hp, h1, h2, h3, hcr, hsp, hht, hf, store, access,
        written, hfit]
    · simp [f, decoder, hamParserConsume, hw, h1, h2, h3, hcolon, hf, store, access, written,
        hfit]
  simpa [f, hne] using h

theorem parse_headerValue (p : HAMParser) (hp : p.state = .headerValue)
    (hptr : p.ptr = some .headerValue) (hval : p.headerValue = []) (r : HAMReply)
    (hf : r.finished = false) {v : Bytes} (hv : ∀ c ∈ v, isControl c = false)
    (hroom : Room fits .headerValue v.length) :
    (decoder fits).parse (p, r) v = .more ({ p with headerValue := v }, r) := by
  let f : Bytes → HAMParser × HAMReply := fun w => ({ p with headerValue := w }, r)
  have h0 : (p, r) = f [] := by simp [f, ← hval]
  rw [h0]
  exact (decoder fits).parse_accumulate f v fun w a u hu => by
    have ha := hv a (by simp [hu])
    have hfit : fits .headerValue w.length = true := hroom _ (by simp [hu])
    have hcr : a ≠ ch '\r' := ne_of_isControl ha (by decide)
    simp [f, decoder, hamParserConsume, hp, ha, hcr, hf, store, access, written, hptr, hfit]

/-- The colon and the blank between a name and its value. -/
theorem parse_nameEnd (p : HAMParser) (hp : p.state = .headerName)
    (hptr : p.ptr = some .headerName) (r : HAMReply) (hf : r.finished = false)
    (hroom : Room fits .headerName p.headerName.length) :
    (decoder fits).parse (p, r) (bytes ": ") =
      .more ({ p with state := .headerValue, ptr := some .headerValue, headerValue := [] }, r) := by
  have hfit : fits .headerName p.headerName.length = true := hroom _ le_rfl
  have hcolon : hamParserConsume fits p r (ch ':') =
      .ok ({ p with state := .spaceBeforeHeaderValue }, r) := by
    simp [hamParserConsume, hp]
  have hspace : hamParserConsume fits { p with state := .spaceBeforeHeaderValue } r (ch ' ') =
      .ok ({ p with state := .headerValue, ptr := some .headerValue, headerValue := [] }, r) := by
    simp [hamParserConsume, hptr, terminate, access, written, hfit]
  change (decoder fits).parse _ [ch ':', ch ' '] = _
  rw [parse_char fits _ hcolon hf, parse_char fits _ hspace hf, Decoder.parse_nil]

/-- The parser behind a header line. -/
def afterHeader (h : Header) : HAMParser where
  state := .headerLineStart
  headerName := h.name
  headerValue := h.value
  ptr := some .headerValue

/-- A whole header line adds its header and leads back to the start of a line. -/
theorem parse_header (p : HAMParser) (hp : p.state = .headerLineStart) (r : HAMReply)
    (hf : r.finished = false) {h : Header} (hh : h.Clean)
    (hname : Room fits .headerName h.name.length)
    (hvalue : Room fits .headerValue h.value.length) :
    (decoder fits).parse (p, r) (headerLine h) =
      .more (afterHeader h, { r with headers := r.headers ++ [h] }) := by
  have h1 := parse_headerName fits p hp r hf hh.name_ne_nil hh.name_token hname
  let q : HAMParser :=
    { p with state := .headerName, ptr := some .headerName, headerName := h.name }
  let q' : HAMParser :=
    { q with state := .headerValue, ptr := some .headerValue, headerValue := [] }
  have h2 : (decoder fits).parse (q, r) (bytes ": ") = .more (q', r) :=
    parse_nameEnd fits q rfl rfl r hf hname
  have h3 := parse_headerValue fits q' rfl rfl rfl r hf hh.value_clean hvalue
  have h4 : (decoder fits).parse ({ q' with headerValue := h.value }, r) crlf =
      .more (afterHeader h, { r with headers := r.headers ++ [h] }) := by
    have hfit : fits .headerValue h.value.length = true := hvalue _ le_rfl
    have hn : cstr h.name = h.name := cstr_of_notMem fun h0 =>
      absurd (hh.name_token 0 h0) (by decide)
    have hv : cstr h.value = h.value := cstr_of_notMem fun h0 =>
      absurd (hh.value_clean 0 h0) (by decide)
    have hreturn : (decoder fits).step ({ q' with headerValue := h.value }, r) (ch '\r') =
        .ok ({ afterHeader h with state := .expectingNewline2 },
          { r with headers := r.headers ++ [h] }) := by
      simp [decoder, hamParserConsume, q', q, terminate, access, written, hfit, hn, hv,
        hamReplyAddHeader, afterHeader]
    have hnewline (r : HAMReply) :
        hamParserConsume fits { afterHeader h with state := .expectingNewline2 } r (ch '\n') =
          .ok (afterHeader h, r) := by
      simp [hamParserConsume, consumeIf, afterHeader]
    change (decoder fits).parse _ [ch '\r', ch '\n'] = _
    rw [(decoder fits).parse_cons_more hreturn hf,
      parse_char fits _ (hnewline { r with headers := r.headers ++ [h] }) hf, Decoder.parse_nil]
  exact (decoder fits).more_trans ((decoder fits).more_trans
    ((decoder fits).more_trans h1 h2) h3) h4

/-- Any number of header lines, in their order. -/
theorem parse_headers (p : HAMParser) (hp : p.state = .headerLineStart) (r : HAMReply)
    (hf : r.finished = false) {hs : List Header} (hhs : ∀ h ∈ hs, h.Clean)
    (hroom : ∀ h ∈ hs, Room fits .headerName h.name.length ∧
      Room fits .headerValue h.value.length) :
    ∃ q : HAMParser, q.state = .headerLineStart ∧
      (decoder fits).parse (p, r) (hs.flatMap headerLine) =
        .more (q, { r with headers := r.headers ++ hs }) := by
  induction hs generalizing p r with
  | nil => exact ⟨p, hp, by simp⟩
  | cons h hs ih =>
    have h1 := parse_header fits p hp r hf (hhs h (by simp)) (hroom h (by simp)).1
      (hroom h (by simp)).2
    obtain ⟨q, hq, h2⟩ := ih (afterHeader h) rfl { r with headers := r.headers ++ [h] } hf
      (fun k hk => hhs k (by simp [hk])) fun k hk => hroom k (by simp [hk])
    refine ⟨q, hq, ?_⟩
    simpa using (decoder fits).more_trans h1 h2

/-- The blank line finishes a reply that declares no content. -/
theorem parse_end (p : HAMParser) (hp : p.state = .headerLineStart) (r : HAMReply)
    (hf : r.finished = false) (hcl : declaresContent r = false) :
    (decoder fits).parse (p, r) crlf =
      .done (hamParserReset p, { r with content := [], finished := true }) [] := by
  change (decoder fits).parse _ [ch '\r', ch '\n'] = _
  rw [parse_char fits { p with state := .expectingNewline3 } (by simp [hamParserConsume, hp]) hf]
  exact (decoder fits).parse_cons_done
    (by simp [decoder, hamParserConsume, hcl, hamParserReset]) rfl

/-- Behind a declared content the blank line starts the content. -/
theorem parse_blank (p : HAMParser) (hp : p.state = .headerLineStart) (r : HAMReply)
    (hf : r.finished = false) (hcl : declaresContent r = true) :
    (decoder fits).parse (p, r) crlf = .more ({ p with state := .contentStart }, r) := by
  change (decoder fits).parse _ [ch '\r', ch '\n'] = _
  rw [parse_char fits { p with state := .expectingNewline3 } (by simp [hamParserConsume, hp]) hf,
    parse_char fits { p with state := .contentStart }
      (by simp [hamParserConsume, hcl]) hf, Decoder.parse_nil]

/-- Another blank line in front of the content is skipped. -/
theorem parse_blank_again (p : HAMParser) (hp : p.state = .contentStart) (r : HAMReply)
    (hf : r.finished = false) (hcl : declaresContent r = true) :
    (decoder fits).parse (p, r) crlf = .more (p, r) := by
  have hreturn : hamParserConsume fits p r (ch '\r') =
      .ok ({ p with state := .expectingNewline3 }, r) := by
    simp [hamParserConsume, hp]
  have hnewline : hamParserConsume fits { p with state := .expectingNewline3 } r (ch '\n') =
      .ok (p, r) := by
    simp [hamParserConsume, hcl, ← hp]
  change (decoder fits).parse _ [ch '\r', ch '\n'] = _
  rw [parse_char fits _ hreturn hf, parse_char fits _ hnewline hf, Decoder.parse_nil]

/-- A content without carriage returns is stored as it is. -/
theorem parse_body (p : HAMParser) (hp : p.state = .contentStart) (r : HAMReply)
    (hf : r.finished = false) {body : Bytes} (hne : body ≠ []) (hcr : cr ∉ body)
    (hroom : Room fits .content body.length) :
    (decoder fits).parse (p, r) body =
      .more ({ p with state := .content, ptr := some .content }, { r with content := body }) := by
  let f : Bytes → HAMParser × HAMReply := fun w =>
    if w = [] then (p, r)
    else ({ p with state := .content, ptr := some .content }, { r with content := w })
  have h := (decoder fits).parse_accumulate f body fun w a v hv => by
    have ha : a ≠ ch '\r' := fun h0 => hcr (by simp [hv, ← h0, cr])
    have hfit : fits .content w.length = true := hroom _ (by simp [hv])
    by_cases hw : w = []
    · subst hw
      simp at hfit
      simp [f, decoder, hamParserConsume, hp, ha, hf, store, access, written, hfit]
    · simp [f, decoder, hamParserConsume, hw, ha, hf, store, access, written, hfit]
  simpa [f, hne] using h

/-- The line end behind a content finishes the reply. -/
theorem parse_content (p : HAMParser) (hp : p.state = .contentStart) (r : HAMReply)
    (hf : r.finished = false) {body : Bytes} (hne : body ≠ []) (hcr : cr ∉ body)
    (hroom : Room fits .content body.length) :
    (decoder fits).parse (p, r) (body ++ crlf) =
      .done (hamParserReset p, { r with content := body, finished := true }) [] := by
  have hfit : fits .content body.length = true := hroom _ le_rfl
  let q : HAMParser := { p with state := .content, ptr := some .content }
  have hreturn : hamParserConsume fits q { r with content := body } (ch '\r') =
      .ok ({ q with state := .expectingNewline4 }, { r with content := body }) := by
    simp [hamParserConsume, q, terminate, access, written, hfit]
  rw [(decoder fits).parse_append_more (parse_body fits p hp r hf hne hcr hroom)]
  change (decoder fits).parse _ [ch '\r', ch '\n'] = _
  rw [parse_char fits _ hreturn hf]
  exact (decoder fits).parse_cons_done
    (by simp [decoder, hamParserConsume, consumeIf, hamParserReset, q]) rfl

/-- The headers a server reply sends, as the client stores them, declare a content exactly when
the reply has one. -/
theorem declaresContent_sent (reply : Reply) (r : HAMReply) (hr : r.headers = reply.sentHeaders) :
    declaresContent r = true ↔ reply.content ≠ [] := by
  have hname : bytes "Content-Type" ≠ contentLengthName := by decide
  have hget : hamReplyGetHeader r contentLengthName = some (decimal reply.content.length) := by
    simp [hamReplyGetHeader, hr, Reply.sentHeaders, Reply.headers, hname]
  rw [declaresContent, hget]
  simp [decimal_eq_zero_text]

end Hamlog.Library
