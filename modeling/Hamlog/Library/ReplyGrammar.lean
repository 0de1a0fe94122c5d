import Hamlog.Library.ParserRuns

/-! # The texts that the reply parser reads

A grammar of the replies that `ham_parser_consume` accepts, whatever the sizes
of its buffers: a status line, header lines, and a content when one is
declared. Every text of the grammar is read by the parser over free buffers,
and a state of the parser says which part of the grammar stands behind it.
-/
namespace Hamlog.Library
open Foundation Wire

/-- Line ends that the start state skips. -/
def Skipped (text : Bytes) : Prop := ∀ c ∈ text, c = 10 ∨ c = 13

def Digits (text : Bytes) : Prop := text ≠ [] ∧ ∀ c ∈ text, isDigit c

/-- The text between the status code and the line end. -/
def Reason (text : Bytes) : Prop := ∀ c ∈ text, isDigit c = false ∧ c ≠ ch '\r'

/-- The version, up to the blank behind it. -/
inductive Version : Bytes → Prop
  | intro {skip major minor} : Skipped skip → Digits major → Digits minor →
      Version (skip ++ bytes "HTTP/" ++ major ++ [ch '.'] ++ minor ++ [ch ' '])

inductive StatusLine : Bytes → Prop
  | intro {version a b c reason} : Version version → isDigit a → isDigit b → isDigit c →
      Reason reason → StatusLine (version ++ [a, b, c] ++ reason ++ crlf)

/-- White space at the beginning of a line. -/
def Blank (text : Bytes) : Prop := text ≠ [] ∧ ∀ c ∈ text, c = ch ' ' ∨ c = ch '\t'

def Name (text : Bytes) : Prop := text ≠ [] ∧ ∀ c ∈ text, isToken c

def Value (text : Bytes) : Prop := ∀ c ∈ text, isControl c = false

/-- The beginning of a reply, up to the start of a line, and the headers of the reply behind it.
White lines are read only in front of the first header. -/
inductive Head (before : List Header) : Bytes → List Header → Prop
  | status {line} : StatusLine line → Head before line before
  | blank {text white} : Head before text [] → Blank white → Head before (text ++ (white ++ crlf)) []
  | header {text headers name value} : Head before text headers → Name name → Value value →
      Head before (text ++ headerLine ⟨name, value⟩) (headers ++ [⟨name, value⟩])

/-- Whether the headers declare a content. -/
def declares (headers : List Header) : Bool := declaresContent { headers }

theorem declaresContent_eq (r : HAMReply) : declaresContent r = declares r.headers := rfl

def blankLines : ℕ → Bytes
  | 0 => []
  | n + 1 => crlf ++ blankLines n

/-- A whole reply. Behind the blank line that announces a content, further blank lines are
skipped. -/
inductive Whole (before : List Header) : Bytes → Prop
  | plain {text headers} : Head before text headers → declares headers = false →
      Whole before (text ++ crlf)
  | content {text headers n body} : Head before text headers → declares headers = true →
      body ≠ [] → cr ∉ body → Whole before (text ++ (blankLines (n + 1) ++ (body ++ crlf)))

/-- Whole replies, the first of them begun under the headers `before`, and the headers under which
the next one is begun. -/
inductive Replies (before : List Header) : Bytes → List Header → Prop
  | nil : Replies before [] before
  | snoc {text headers whole} : Replies before text headers → Whole headers whole →
      Replies before (text ++ whole) []

/-! ## Reading the grammar over free buffers -/

/-- The parser over buffers without end. -/
abbrev free : Region → ℕ → Bool := fun _ _ => true

/-- A run of bytes that leave the parser where it is. -/
theorem parse_loop {fits : Region → ℕ → Bool} {p : HAMParser} {r : HAMReply} {run : Bytes}
    (h : ∀ c ∈ run, hamParserConsume fits p r c = .ok (p, r)) (hf : r.finished = false) :
    (decoder fits).parse (p, r) run = .more (p, r) := by
  induction run with
  | nil => rfl
  | cons c run ih =>
    rw [parse_char fits p (h c List.mem_cons_self) hf]
    exact ih fun d hd => h d (List.mem_cons_of_mem _ hd)

/-- A first digit leads into a loop over the others. -/
theorem parse_digits {fits : Region → ℕ → Bool} {p q : HAMParser} {r : HAMReply} {digits : Bytes}
    (hdigits : Digits digits) (hf : r.finished = false)
    (hfirst : ∀ c, isDigit c → hamParserConsume fits p r c = .ok (q, r))
    (hnext : ∀ c, isDigit c → hamParserConsume fits q r c = .ok (q, r)) :
    (decoder fits).parse (p, r) digits = .more (q, r) := by
  obtain ⟨hne, hall⟩ := hdigits
  obtain ⟨c, digits, rfl⟩ := List.exists_cons_of_ne_nil hne
  rw [parse_char fits q (hfirst c (hall c List.mem_cons_self)) hf]
  exact parse_loop (fun d hd => hnext d (hall d (List.mem_cons_of_mem _ hd))) hf

theorem parse_version {p : HAMParser} (hp : p.state = .httpVersionH) {r : HAMReply}
    (hf : r.finished = false) {version : Bytes} (h : Version version) :
    (decoder free).parse (p, r) version = .more ({ p with state := .statusStart }, r) := by
  obtain ⟨hskip, hmajor, hminor⟩ := h
  rename_i skip major minor
  have h1 : (decoder free).parse (p, r) skip = .more (p, r) := parse_loop (fun c hc => by
    have hend := hskip c hc
    have hne : c ≠ ch 'H' := by rcases hend with rfl | rfl <;> decide
    simp [hamParserConsume, hp, hne, consumeIf, hend]) hf
  have h2 : (decoder free).parse (p, r) (bytes "HTTP/") =
      .more ({ p with state := .httpVersionMajorStart }, r) := by
    change (decoder free).parse (p, r) [ch 'H', ch 'T', ch 'T', ch 'P', ch '/'] = _
    simp [Decoder.parse, decoder, hamParserConsume, consumeIf, hp, hf]
  have hdigit {c : Byte} (hc : isDigit c) : c ≠ ch '.' ∧ c ≠ ch ' ' := by
    constructor <;> rintro rfl <;> exact absurd hc (by decide)
  have h3 : (decoder free).parse ({ p with state := .httpVersionMajorStart }, r) major =
      .more ({ p with state := .httpVersionMajor }, r) :=
    parse_digits hmajor hf (fun c hc => by simp [hamParserConsume, consumeIf, hc])
      (fun c hc => by simp [hamParserConsume, consumeIf, hc, (hdigit hc).1])
  have h4 : (decoder free).parse ({ p with state := .httpVersionMajor }, r) [ch '.'] =
      .more ({ p with state := .httpVersionMinorStart }, r) := by
    simp [Decoder.parse, decoder, hamParserConsume, hf]
  have h5 : (decoder free).parse ({ p with state := .httpVersionMinorStart }, r) minor =
      .more ({ p with state := .httpVersionMinor }, r) :=
    parse_digits hminor hf (fun c hc => by simp [hamParserConsume, consumeIf, hc])
      (fun c hc => by simp [hamParserConsume, consumeIf, hc, (hdigit hc).2])
  have h6 : (decoder free).parse ({ p with state := .httpVersionMinor }, r) [ch ' '] =
      .more ({ p with state := .statusStart }, r) := by
    simp [Decoder.parse, decoder, hamParserConsume, hf]
  exact (decoder free).more_trans ((decoder free).more_trans ((decoder free).more_trans
    ((decoder free).more_trans ((decoder free).more_trans h1 h2) h3) h4) h5) h6

theorem parse_statusText {p : HAMParser} (hp : p.state = .httpVersionH) {r : HAMReply}
    (hf : r.finished = false) {line : Bytes} (h : StatusLine line) :
    ∃ status, (decoder free).parse (p, r) line =
      .more ({ p with state := .headerLineStart }, { r with status }) := by
  obtain ⟨hversion, ha, hb, hc, hreason⟩ := h
  rename_i version a b c reason
  let s : HAMReply := { r with status := 100 * digit a + 10 * digit b + digit c }
  have h1 := parse_version hp hf hversion
  have h2 : (decoder free).parse ({ p with state := .statusStart }, r) [a, b, c] =
      .more ({ p with state := .statusText }, s) := by
    simp [Decoder.parse, decoder, hamParserConsume, consumeIf, hf, ha, hb, hc, s]
  have h3 : (decoder free).parse ({ p with state := .statusText }, s) reason =
      .more ({ p with state := .statusText }, s) :=
    parse_loop (fun c hc => by simp [hamParserConsume, hreason c hc]) hf
  have h4 : (decoder free).parse ({ p with state := .statusText }, s) crlf =
      .more ({ p with state := .headerLineStart }, s) := by
    have hcr : isDigit (ch '\r') = false := by decide
    change (decoder free).parse _ [ch '\r', ch '\n'] = _
    simp [Decoder.parse, decoder, hamParserConsume, consumeIf, s, hf, hcr]
  exact ⟨_, (decoder free).more_trans ((decoder free).more_trans
    ((decoder free).more_trans h1 h2) h3) h4⟩

theorem parse_white {p : HAMParser} (hp : p.state = .headerLineStart) {r : HAMReply}
    (hf : r.finished = false) (hr : r.headers = []) {white : Bytes} (h : Blank white) :
    (decoder free).parse (p, r) white = .more ({ p with state := .headerLws }, r) := by
  obtain ⟨hne, hall⟩ := h
  obtain ⟨c, white, rfl⟩ := List.exists_cons_of_ne_nil hne
  have hreturn {c : Byte} (hc : c = ch ' ' ∨ c = ch '\t') : c ≠ ch '\r' := by
    rcases hc with rfl | rfl <;> decide
  have hfirst := hall c List.mem_cons_self
  rw [parse_char free { p with state := .headerLws }
    (by simp [hamParserConsume, hp, hreturn hfirst, hr, hfirst]) hf]
  refine parse_loop (fun d hd => ?_) hf
  have hnext := hall d (List.mem_cons_of_mem _ hd)
  simp [hamParserConsume, hreturn hnext, hnext]

/-- The parser reads the beginning of a reply. Before the first header its pointer is null. -/
theorem parse_head {before headers : List Header} {text : Bytes} (h : Head before text headers)
    {p : HAMParser} (hp : p.Idle) {r : HAMReply} (hf : r.finished = false)
    (hr : r.headers = before) :
    ∃ (q : HAMParser) (s : HAMReply), (decoder free).parse (p, r) text = .more (q, s) ∧
      q.state = .headerLineStart ∧ s.headers = headers ∧ s.finished = false ∧
      (headers = [] → q.ptr = none) := by
  induction h with
  | status hline =>
    obtain ⟨status, hparse⟩ := parse_statusText hp.state_eq hf hline
    exact ⟨_, _, hparse, rfl, hr, hf, fun _ => hp.ptr_eq⟩
  | blank hhead hwhite ih =>
    obtain ⟨q, s, hparse, hq, hs, hsf, hptr⟩ := ih
    have hline := parse_white hq hsf hs hwhite
    have hend : (decoder free).parse ({ q with state := .headerLws }, s) crlf =
        .more ({ q with state := .headerLineStart }, s) := by
      change (decoder free).parse _ [ch '\r', ch '\n'] = _
      simp [Decoder.parse, decoder, hamParserConsume, consumeIf, hsf]
    exact ⟨_, _, (decoder free).more_trans hparse ((decoder free).more_trans hline hend), rfl, hs,
      hsf, fun _ => hptr rfl⟩
  | header hhead hname hvalue ih =>
    rename_i text headers name value
    obtain ⟨q, s, hparse, hq, hs, hsf, hptr⟩ := ih
    have hclean : Header.Clean ⟨name, value⟩ := ⟨hname.1, hname.2, hvalue⟩
    have hline := parse_header free q hq s hsf hclean (room_free _ _) (room_free _ _)
    exact ⟨_, _, (decoder free).more_trans hparse hline, rfl, by simp [hs], hsf, by simp⟩

theorem parse_blankLines {p : HAMParser} (hp : p.state = .contentStart) {r : HAMReply}
    (hf : r.finished = false) (hr : declares r.headers = true) (n : ℕ) :
    (decoder free).parse (p, r) (blankLines n) = .more (p, r) := by
  induction n with
  | zero => rfl
  | succ n ih => exact (decoder free).more_trans (parse_blank_again free p hp r hf hr) ih

/-- The blank lines in front of a content lead to its start. -/
theorem parse_toContent {p : HAMParser} (hp : p.state = .headerLineStart) {r : HAMReply}
    (hf : r.finished = false) (hr : declares r.headers = true) (n : ℕ) :
    (decoder free).parse (p, r) (blankLines (n + 1)) = .more ({ p with state := .contentStart }, r) :=
  (decoder free).more_trans (parse_blank free p hp r hf hr) (parse_blankLines rfl hf hr n)

/-- The parser reads a whole reply to its last byte, which finishes it. -/
theorem parse_wholeReply {before : List Header} {text : Bytes} (h : Whole before text)
    {p : HAMParser} (hp : p.Idle) {r : HAMReply} (hf : r.finished = false)
    (hr : r.headers = before) :
    ∃ (q : HAMParser) (s : HAMReply), (decoder free).parse (p, r) text = .done (q, s) [] ∧ q.Idle := by
  cases h with
  | plain hhead hnone =>
    obtain ⟨q, s, hparse, hq, hs, hsf, -⟩ := parse_head hhead hp hf hr
    have hend := parse_end free q hq s hsf (by rw [declaresContent_eq, hs, hnone])
    exact ⟨_, _, (decoder free).parse_append_more hparse _ ▸ hend, hamParserReset_idle q⟩
  | content hhead hsome hbody hcr =>
    obtain ⟨q, s, hparse, hq, hs, hsf, -⟩ := parse_head hhead hp hf hr
    have hblank := parse_toContent hq hsf (hs ▸ hsome)
    have hcontent := parse_content free { q with state := .contentStart } rfl s hsf hbody hcr
      (room_free _ _)
    exact ⟨_, _, ((decoder free).parse_append_more hparse _).trans
      (((decoder free).parse_append_more (hblank _) _).trans hcontent), hamParserReset_idle _⟩

/-- Whole replies are fed to the parser without an error, and leave it idle. -/
theorem feed_replies {before headers : List Header} {text : Bytes}
    (h : Replies before text headers) {p : HAMParser} (hp : p.Idle) {r : HAMReply}
    (hf : r.finished = false) (hr : r.headers = before) :
    ∃ msgs q s, (decoder free).feed (p, r) text = (msgs, .ok (q, s)) ∧ q.Idle ∧
      s.finished = false ∧ s.headers = headers := by
  induction h with
  | nil => exact ⟨[], p, r, rfl, hp, hf, hr⟩
  | snoc hreplies hwhole ih =>
    obtain ⟨msgs, q, s, hfeed, hq, hsf, hs⟩ := ih
    obtain ⟨q', s', hparse, hq'⟩ := parse_wholeReply hwhole hq hsf hs
    refine ⟨msgs ++ [(q', s')], q', {}, ?_, hq', rfl, rfl⟩
    rw [(decoder free).feed_append hfeed, (decoder free).feed_eq_parse, hparse]
    rfl

end Hamlog.Library
