import Hamlog.Library.ReplyGrammar

/-! # The bounds of the parser's buffers

`ham_parser_consume` stores through its pointer without a look at the sizes of
the buffers. Which streams make it leave them is said by the grammar of the
replies: those with a text that is too long for its buffer, and those with
white space in front of the first header and more behind it on the line, which
is stored through the null pointer.
-/
namespace Hamlog.Library
open Foundation Wire

/-- What follows the beginning of a reply and makes the parser store outside its buffers: a name
of 512 bytes or more with another one or its colon behind it, such a value with another byte or
the line end behind it, a content of 65535 bytes or more with another byte, or white space in front
of the first header with a text behind it. -/
inductive TooLong (headers : List Header) : Bytes → Prop
  | name {name c rest} : Name name → 512 ≤ name.length → isToken c →
      TooLong headers (name ++ (c :: rest))
  | nameEnd {name rest} : Name name → 512 ≤ name.length →
      TooLong headers (name ++ (bytes ": " ++ rest))
  | value {name value c rest} : Name name → Value value → 512 ≤ value.length →
      c = ch '\r' ∨ isControl c = false →
      TooLong headers (name ++ (bytes ": " ++ (value ++ (c :: rest))))
  | white {white c rest} : headers = [] → Blank white → c ≠ ch ' ' → isControl c = false →
      TooLong headers (white ++ (c :: rest))
  | content {n body c rest} : declares headers = true → cr ∉ body → 65535 ≤ body.length →
      TooLong headers (blankLines (n + 1) ++ (body ++ (c :: rest)))

/-- A stream of replies, the first begun under the headers `before`, one of which is too long. -/
inductive Overlong (before : List Header) : Bytes → Prop
  | intro {front begun head headers tail} : Replies before front begun →
      Head begun head headers → TooLong headers tail → Overlong before (front ++ (head ++ tail))

/-! ## Positions in a reply -/

/-- The part of the status line in front of each of its states. -/
def Opening : HAMParserState → Bytes → Prop
  | .httpVersionH, text => Skipped text
  | .httpVersionT1, text => ∃ skip, Skipped skip ∧ text = skip ++ bytes "H"
  | .httpVersionT2, text => ∃ skip, Skipped skip ∧ text = skip ++ bytes "HT"
  | .httpVersionP, text => ∃ skip, Skipped skip ∧ text = skip ++ bytes "HTT"
  | .httpVersionSlash, text => ∃ skip, Skipped skip ∧ text = skip ++ bytes "HTTP"
  | .httpVersionMajorStart, text => ∃ skip, Skipped skip ∧ text = skip ++ bytes "HTTP/"
  | .httpVersionMajor, text =>
    ∃ skip major, Skipped skip ∧ Digits major ∧ text = skip ++ bytes "HTTP/" ++ major
  | .httpVersionMinorStart, text =>
    ∃ skip major, Skipped skip ∧ Digits major ∧ text = skip ++ bytes "HTTP/" ++ major ++ [ch '.']
  | .httpVersionMinor, text =>
    ∃ skip major minor, Skipped skip ∧ Digits major ∧ Digits minor ∧
      text = skip ++ bytes "HTTP/" ++ major ++ [ch '.'] ++ minor
  | .statusStart, text => Version text
  | .status1, text => ∃ version a, Version version ∧ isDigit a ∧ text = version ++ [a]
  | .status2, text =>
    ∃ version a b, Version version ∧ isDigit a ∧ isDigit b ∧ text = version ++ [a, b]
  | .statusText, text =>
    ∃ version a b c reason, Version version ∧ isDigit a ∧ isDigit b ∧ isDigit c ∧
      Reason reason ∧ text = version ++ [a, b, c] ++ reason
  | .expectingNewline1, text =>
    ∃ version a b c reason, Version version ∧ isDigit a ∧ isDigit b ∧ isDigit c ∧
      Reason reason ∧ text = version ++ [a, b, c] ++ reason ++ [ch '\r']
  | _, _ => False

/-- What a state of the parser says about the text `text` of the reply read so far. -/
def At (before : List Header) (text : Bytes) (p : HAMParser) (r : HAMReply) : Prop :=
  match p.state with
  | .headerLineStart => Head before text r.headers ∧ (r.headers = [] → p.ptr = none)
  | .headerLws =>
    p.ptr = none ∧ r.headers = [] ∧
      ∃ head white, Head before head [] ∧ Blank white ∧ text = head ++ white
  | .headerName =>
    p.ptr = some .headerName ∧ Name p.headerName ∧
      ∃ head, Head before head r.headers ∧ text = head ++ p.headerName
  | .spaceBeforeHeaderValue =>
    p.ptr = some .headerName ∧ Name p.headerName ∧
      ∃ head, Head before head r.headers ∧ text = head ++ p.headerName ++ [ch ':']
  | .headerValue =>
    p.ptr = some .headerValue ∧ Name p.headerName ∧ Value p.headerValue ∧
      ∃ head, Head before head r.headers ∧
        text = head ++ p.headerName ++ bytes ": " ++ p.headerValue
  | .expectingNewline2 =>
    Head before (text ++ [ch '\n']) r.headers ∧ (r.headers = [] → p.ptr = none)
  | .expectingNewline3 =>
    ∃ head n, Head before head r.headers ∧ (0 < n → declares r.headers = true) ∧
      text = head ++ blankLines n ++ [ch '\r']
  | .contentStart =>
    declares r.headers = true ∧
      ∃ head n, Head before head r.headers ∧ text = head ++ blankLines (n + 1)
  | .content =>
    p.ptr = some .content ∧ declares r.headers = true ∧ r.content ≠ [] ∧ cr ∉ r.content ∧
      ∃ head n, Head before head r.headers ∧ text = head ++ blankLines (n + 1) ++ r.content
  | .expectingNewline4 => Whole before (text ++ [ch '\n'])
  | state => Opening state text ∧ r.headers = before ∧ p.ptr = none

theorem at_opening {before : List Header} {text : Bytes} {p : HAMParser} {r : HAMReply}
    (h : Opening p.state text) (hr : r.headers = before) (hp : p.ptr = none) :
    At before text p r := by
  obtain ⟨state, headerName, headerValue, ptr⟩ := p
  cases state <;> first | exact ⟨h, hr, hp⟩ | exact False.elim h

theorem at_idle {p : HAMParser} (hp : p.Idle) (r : HAMReply) : At r.headers [] p r :=
  at_opening (by rw [hp.state_eq]; exact fun _ hc => absurd hc List.not_mem_nil) rfl hp.ptr_eq

/-- What a step from a position leads to: the next position, a whole reply, or, if it leaves the
buffers, a text that is too long. -/
def Keeps (before : List Header) (text : Bytes) (c : Byte) :
    Except Stop (HAMParser × HAMReply) → Prop
  | .ok (q, s) =>
    if s.finished then Whole before (text ++ [c]) ∧ q.Idle else At before (text ++ [c]) q s
  | .error .rejected => True
  | .error .fault =>
    ∀ rest, ∃ head headers tail, text ++ c :: rest = head ++ tail ∧ Head before head headers ∧
      TooLong headers tail

section Steps
variable {before : List Header} {text : Bytes} {c : Byte}

theorem keeps_at {q : HAMParser} {s : HAMReply} (hs : s.finished = false)
    (h : At before (text ++ [c]) q s) : Keeps before text c (.ok (q, s)) := by
  rw [Keeps, if_neg (by simp [hs])]
  exact h

theorem keeps_consumeIf {accepted : Bool} {q : HAMParser} {s : HAMReply} (hs : s.finished = false)
    (h : accepted = true → At before (text ++ [c]) q s) :
    Keeps before text c (consumeIf accepted (q, s)) := by
  cases accepted with
  | false => trivial
  | true => exact keeps_at hs (h rfl)

theorem Skipped.snoc {text : Bytes} (h : Skipped text) {c : Byte} (hc : c = 10 ∨ c = 13) :
    Skipped (text ++ [c]) := fun d hd =>
  (List.mem_append.mp hd).elim (h d) fun hd => List.mem_singleton.mp hd ▸ hc

theorem digits_single {c : Byte} (hc : isDigit c) : Digits [c] :=
  ⟨by simp, fun _ hd => List.mem_singleton.mp hd ▸ hc⟩

theorem Digits.snoc {text : Bytes} (h : Digits text) {c : Byte} (hc : isDigit c) :
    Digits (text ++ [c]) :=
  ⟨by simp, fun d hd => (List.mem_append.mp hd).elim (h.2 d) fun hd => List.mem_singleton.mp hd ▸ hc⟩

theorem Reason.snoc {text : Bytes} (h : Reason text) {c : Byte}
    (hc : isDigit c = false ∧ c ≠ ch '\r') : Reason (text ++ [c]) := fun d hd =>
  (List.mem_append.mp hd).elim (h d) fun hd => List.mem_singleton.mp hd ▸ hc

/-- The steps in the status line. -/
theorem keeps_opening {p : HAMParser} {r : HAMReply} (hf : r.finished = false)
    (h : Opening p.state text) (hr : r.headers = before) (hp : p.ptr = none) :
    Keeps before text c (hamParserConsume declared p r c) := by
  obtain ⟨state, headerName, headerValue, ptr⟩ := p
  cases state with
  | httpVersionH =>
    rw [hamParserConsume]
    simp only
    split_ifs with hc
    · exact keeps_at hf (at_opening ⟨text, h, by rw [hc]; rfl⟩ hr hp)
    · exact keeps_consumeIf hf fun hc => at_opening (h.snoc (of_decide_eq_true hc)) hr hp
  | httpVersionT1 =>
    obtain ⟨skip, hskip, rfl⟩ := h
    exact keeps_consumeIf hf fun hc => at_opening
      ⟨skip, hskip, by rw [of_decide_eq_true hc, List.append_assoc]; rfl⟩ hr hp
  | httpVersionT2 =>
    obtain ⟨skip, hskip, rfl⟩ := h
    exact keeps_consumeIf hf fun hc => at_opening
      ⟨skip, hskip, by rw [of_decide_eq_true hc, List.append_assoc]; rfl⟩ hr hp
  | httpVersionP =>
    obtain ⟨skip, hskip, rfl⟩ := h
    exact keeps_consumeIf hf fun hc => at_opening
      ⟨skip, hskip, by rw [of_decide_eq_true hc, List.append_assoc]; rfl⟩ hr hp
  | httpVersionSlash =>
    obtain ⟨skip, hskip, rfl⟩ := h
    exact keeps_consumeIf hf fun hc => at_opening
      ⟨skip, hskip, by rw [of_decide_eq_true hc, List.append_assoc]; rfl⟩ hr hp
  | httpVersionMajorStart =>
    obtain ⟨skip, hskip, rfl⟩ := h
    exact keeps_consumeIf hf fun hc => at_opening ⟨skip, [c], hskip, digits_single hc, rfl⟩ hr hp
  | httpVersionMajor =>
    obtain ⟨skip, major, hskip, hmajor, rfl⟩ := h
    rw [hamParserConsume]
    simp only
    split_ifs with hc
    · exact keeps_at hf (at_opening ⟨skip, major, hskip, hmajor, by rw [hc]⟩ hr hp)
    · exact keeps_consumeIf hf fun hc => at_opening
        ⟨skip, major ++ [c], hskip, hmajor.snoc hc, List.append_assoc _ _ _⟩ hr hp
  | httpVersionMinorStart =>
    obtain ⟨skip, major, hskip, hmajor, rfl⟩ := h
    exact keeps_consumeIf hf fun hc => at_opening
      ⟨skip, major, [c], hskip, hmajor, digits_single hc, rfl⟩ hr hp
  | httpVersionMinor =>
    obtain ⟨skip, major, minor, hskip, hmajor, hminor, rfl⟩ := h
    rw [hamParserConsume]
    simp only
    split_ifs with hc
    · exact keeps_at hf (at_opening (hc ▸ .intro hskip hmajor hminor) hr hp)
    · exact keeps_consumeIf hf fun hc => at_opening
        ⟨skip, major, minor ++ [c], hskip, hmajor, hminor.snoc hc, List.append_assoc _ _ _⟩ hr hp
  | statusStart =>
    exact keeps_consumeIf hf fun hc => at_opening ⟨text, c, h, hc, rfl⟩ hr hp
  | status1 =>
    obtain ⟨version, a, hversion, ha, rfl⟩ := h
    exact keeps_consumeIf hf fun hc => at_opening
      ⟨version, a, c, hversion, ha, hc, List.append_assoc _ _ _⟩ hr hp
  | status2 =>
    obtain ⟨version, a, b, hversion, ha, hb, rfl⟩ := h
    exact keeps_consumeIf hf fun hc => at_opening
      ⟨version, a, b, c, [], hversion, ha, hb, hc, fun _ hd => absurd hd List.not_mem_nil,
        by simp⟩ hr hp
  | statusText =>
    obtain ⟨version, a, b, d, reason, hversion, ha, hb, hd, hreason, rfl⟩ := h
    rw [hamParserConsume]
    simp only
    split_ifs with hdigit hc
    · trivial
    · exact keeps_at hf (at_opening
        ⟨version, a, b, d, reason, hversion, ha, hb, hd, hreason, by rw [hc]⟩ hr hp)
    · exact keeps_at hf (at_opening ⟨version, a, b, d, reason ++ [c], hversion, ha, hb, hd,
        hreason.snoc ⟨by simpa using hdigit, hc⟩, List.append_assoc _ _ _⟩ hr hp)
  | expectingNewline1 =>
    obtain ⟨version, a, b, d, reason, hversion, ha, hb, hd, hreason, rfl⟩ := h
    refine keeps_consumeIf hf fun hc => ⟨?_, fun _ => hp⟩
    have hline := StatusLine.intro hversion ha hb hd hreason
    rw [of_decide_eq_true hc, hr, List.append_assoc]
    exact .status hline
  | _ => exact False.elim h

theorem keeps_headerLineStart {p : HAMParser} (hstate : p.state = .headerLineStart) {r : HAMReply}
    (hf : r.finished = false) (h : At before text p r) :
    Keeps before text c (hamParserConsume declared p r c) := by
  obtain ⟨state, headerName, headerValue, ptr⟩ := p
  subst hstate
  obtain ⟨hhead, hptr⟩ := h
  rw [hamParserConsume]
  simp only
  split_ifs with hreturn hwhite hbad
  · exact keeps_at hf ⟨text, 0, hhead, fun hn => absurd hn (lt_irrefl 0), by simp [blankLines, hreturn]⟩
  · have hnone : r.headers = [] := List.eq_nil_of_length_eq_zero hwhite.1
    exact keeps_at hf ⟨hptr hnone, hnone, text, [c], hnone ▸ hhead,
      ⟨by simp, fun d hd => List.mem_singleton.mp hd ▸ hwhite.2⟩, rfl⟩
  · trivial
  · have htoken : isToken c := by simpa [isToken_iff, not_or, and_assoc] using hbad
    have hstore : store declared ⟨.headerName, [], headerValue, some .headerName⟩ r c =
        .ok (⟨.headerName, [c], headerValue, some .headerName⟩, r) := rfl
    rw [hstore]
    exact keeps_at hf ⟨rfl, ⟨by simp, fun d hd => List.mem_singleton.mp hd ▸ htoken⟩, text, hhead, rfl⟩

theorem keeps_headerLws {p : HAMParser} (hstate : p.state = .headerLws) {r : HAMReply}
    (hf : r.finished = false) (h : At before text p r) :
    Keeps before text c (hamParserConsume declared p r c) := by
  obtain ⟨state, headerName, headerValue, ptr⟩ := p
  subst hstate
  obtain ⟨hptr, hnone, head, white, hhead, hwhite, rfl⟩ := h
  simp only at hptr
  subst hptr
  rw [hamParserConsume]
  simp only
  split_ifs with hreturn hblank hcontrol
  · refine keeps_at hf ⟨?_, fun _ => rfl⟩
    have hline := Head.blank hhead hwhite
    rw [hnone, hreturn, List.append_assoc, List.append_assoc]
    exact hline
  · exact keeps_at hf ⟨rfl, hnone, head, white ++ [c], hhead,
      ⟨by simp, fun d hd => (List.mem_append.mp hd).elim (hwhite.2 d)
        fun hd => List.mem_singleton.mp hd ▸ hblank⟩, List.append_assoc _ _ _⟩
  · trivial
  · -- the value would be stored through the null pointer
    intro rest
    exact ⟨head, [], white ++ (c :: rest), List.append_assoc _ _ _, hhead,
      .white rfl hwhite (fun hc => hblank (.inl hc)) (by simpa using hcontrol)⟩

theorem keeps_headerName {p : HAMParser} (hstate : p.state = .headerName) {r : HAMReply}
    (hf : r.finished = false) (h : At before text p r) :
    Keeps before text c (hamParserConsume declared p r c) := by
  obtain ⟨state, headerName, headerValue, ptr⟩ := p
  subst hstate
  obtain ⟨hptr, hname, head, hhead, rfl⟩ := h
  simp only at hptr hname
  subst hptr
  rw [hamParserConsume]
  simp only
  split_ifs with hcolon hbad
  · exact keeps_at hf ⟨rfl, hname, head, hhead, by rw [hcolon]⟩
  · trivial
  · have htoken : isToken c := by simpa [isToken_iff, not_or, and_assoc] using hbad
    by_cases hfit : headerName.length < 512
    · have hstore : store declared ⟨.headerName, headerName, headerValue, some .headerName⟩ r c =
          .ok (⟨.headerName, headerName ++ [c], headerValue, some .headerName⟩, r) := by
        simp [store, access, written, declared, Region.size, hfit]
      rw [hstore]
      exact keeps_at hf ⟨rfl, ⟨by simp, fun d hd => (List.mem_append.mp hd).elim (hname.2 d)
        fun hd => List.mem_singleton.mp hd ▸ htoken⟩, head, hhead, List.append_assoc _ _ _⟩
    · have hstore : store declared ⟨.headerName, headerName, headerValue, some .headerName⟩ r c =
          .error .fault := by
        simp [store, access, written, declared, Region.size, hfit]
      rw [hstore]
      exact fun rest => ⟨head, r.headers, headerName ++ (c :: rest), List.append_assoc _ _ _, hhead,
        .name hname (not_lt.mp hfit) htoken⟩

theorem keeps_spaceBeforeHeaderValue {p : HAMParser} (hstate : p.state = .spaceBeforeHeaderValue)
    {r : HAMReply} (hf : r.finished = false) (h : At before text p r) :
    Keeps before text c (hamParserConsume declared p r c) := by
  obtain ⟨state, headerName, headerValue, ptr⟩ := p
  subst hstate
  obtain ⟨hptr, hname, head, hhead, rfl⟩ := h
  simp only at hptr hname
  subst hptr
  rw [hamParserConsume]
  simp only
  split_ifs with hspace
  · by_cases hfit : headerName.length < 512
    · simp only [terminate, access, written, declared, Region.size, hfit, decide_true, if_true]
      exact keeps_at hf ⟨rfl, hname, fun _ hd => absurd hd List.not_mem_nil, head, hhead,
        by rw [hspace]; simp [bytes]⟩
    · simp only [terminate, access, written, declared, Region.size, hfit, decide_false,
        Bool.false_eq_true, if_false]
      exact fun rest => ⟨head, r.headers, headerName ++ (bytes ": " ++ rest),
        by rw [hspace]; simp [bytes], hhead, .nameEnd hname (not_lt.mp hfit)⟩
  · trivial

theorem keeps_headerValue {p : HAMParser} (hstate : p.state = .headerValue) {r : HAMReply}
    (hf : r.finished = false) (h : At before text p r) :
    Keeps before text c (hamParserConsume declared p r c) := by
  obtain ⟨state, headerName, headerValue, ptr⟩ := p
  subst hstate
  obtain ⟨hptr, hname, hvalue, head, hhead, rfl⟩ := h
  simp only at hptr hname hvalue
  subst hptr
  have htooLong (hlen : ¬headerValue.length < 512) (hc : c = ch '\r' ∨ isControl c = false)
      (rest : Bytes) : ∃ head' headers tail, head ++ headerName ++ bytes ": " ++ headerValue ++
        c :: rest = head' ++ tail ∧ Head before head' headers ∧ TooLong headers tail :=
    ⟨head, r.headers, headerName ++ (bytes ": " ++ (headerValue ++ (c :: rest))), by simp, hhead,
      .value hname hvalue (not_lt.mp hlen) hc⟩
  rw [hamParserConsume]
  simp only
  split_ifs with hreturn hcontrol
  · by_cases hfit : headerValue.length < 512
    · simp only [terminate, access, written, declared, Region.size, hfit, decide_true, if_true]
      have hline := Head.header hhead hname hvalue
      have hcstr : cstr headerName = headerName ∧ cstr headerValue = headerValue :=
        ⟨cstr_of_notMem fun h0 => absurd (hname.2 0 h0) (by decide),
          cstr_of_notMem fun h0 => absurd (hvalue 0 h0) (by decide)⟩
      refine keeps_at hf ⟨?_, fun hnone => absurd hnone (by simp [hamReplyAddHeader])⟩
      rw [hamReplyAddHeader, hcstr.1, hcstr.2, hreturn]
      rw [headerLine] at hline
      simpa [crlf, cr, lf] using hline
    · simp only [terminate, access, written, declared, Region.size, hfit, decide_false,
        Bool.false_eq_true, if_false]
      exact htooLong hfit (.inl hreturn)
  · trivial
  · have hclean : isControl c = false := by simpa using hcontrol
    by_cases hfit : headerValue.length < 512
    · have hstore : store declared ⟨.headerValue, headerName, headerValue, some .headerValue⟩ r c =
          .ok (⟨.headerValue, headerName, headerValue ++ [c], some .headerValue⟩, r) := by
        simp [store, access, written, declared, Region.size, hfit]
      rw [hstore]
      exact keeps_at hf ⟨rfl, hname, fun d hd => (List.mem_append.mp hd).elim (hvalue d)
        fun hd => List.mem_singleton.mp hd ▸ hclean, head, hhead, List.append_assoc _ _ _⟩
    · have hstore : store declared ⟨.headerValue, headerName, headerValue, some .headerValue⟩ r c =
          .error .fault := by
        simp [store, access, written, declared, Region.size, hfit]
      rw [hstore]
      exact htooLong hfit (.inr hclean)

theorem blankLines_snoc (n : ℕ) : blankLines (n + 1) = blankLines n ++ crlf := by
  induction n with
  | zero => rfl
  | succ n ih => rw [blankLines, ih, ← List.append_assoc, ← blankLines, ih]

theorem keeps_expectingNewline2 {p : HAMParser} (hstate : p.state = .expectingNewline2)
    {r : HAMReply} (hf : r.finished = false) (h : At before text p r) :
    Keeps before text c (hamParserConsume declared p r c) := by
  obtain ⟨state, headerName, headerValue, ptr⟩ := p
  subst hstate
  obtain ⟨hhead, hptr⟩ := h
  exact keeps_consumeIf hf fun hc => ⟨of_decide_eq_true hc ▸ hhead, hptr⟩

theorem keeps_expectingNewline3 {p : HAMParser} (hstate : p.state = .expectingNewline3)
    {r : HAMReply} (hf : r.finished = false) (h : At before text p r) :
    Keeps before text c (hamParserConsume declared p r c) := by
  obtain ⟨state, headerName, headerValue, ptr⟩ := p
  subst hstate
  obtain ⟨head, n, hhead, hdeclared, rfl⟩ := h
  rw [hamParserConsume]
  simp only
  split_ifs with hline hcontent
  · refine keeps_at hf ⟨hcontent, head, n, hhead, ?_⟩
    rw [hline, blankLines_snoc]
    simp [crlf, cr, lf]
  · have hn : n = 0 := Nat.eq_zero_of_not_pos fun hpos => hcontent (hdeclared hpos)
    have hnone : declares r.headers = false := Bool.eq_false_iff.mpr hcontent
    refine ⟨?_, hamParserReset_idle _⟩
    have hwhole := Whole.plain hhead hnone
    rw [hn, hline]
    simpa [blankLines, crlf, cr, lf] using hwhole
  · trivial

theorem keeps_contentStart {p : HAMParser} (hstate : p.state = .contentStart) {r : HAMReply}
    (hf : r.finished = false) (h : At before text p r) :
    Keeps before text c (hamParserConsume declared p r c) := by
  obtain ⟨state, headerName, headerValue, ptr⟩ := p
  subst hstate
  obtain ⟨hdeclared, head, n, hhead, rfl⟩ := h
  rw [hamParserConsume]
  simp only
  split_ifs with hreturn
  · exact keeps_at hf ⟨head, n + 1, hhead, fun _ => hdeclared, by rw [hreturn]⟩
  · have hstore : store declared ⟨.content, headerName, headerValue, some .content⟩
        { r with content := [] } c =
          .ok (⟨.content, headerName, headerValue, some .content⟩, { r with content := [c] }) := rfl
    rw [hstore]
    exact keeps_at hf ⟨rfl, hdeclared, by simp, fun hc => hreturn (List.mem_singleton.mp hc).symm,
      head, n, hhead, rfl⟩

theorem keeps_content {p : HAMParser} (hstate : p.state = .content) {r : HAMReply}
    (hf : r.finished = false) (h : At before text p r) :
    Keeps before text c (hamParserConsume declared p r c) := by
  obtain ⟨state, headerName, headerValue, ptr⟩ := p
  subst hstate
  obtain ⟨hptr, hdeclared, hne, hcr, head, n, hhead, rfl⟩ := h
  simp only at hptr
  subst hptr
  have htooLong (hlen : ¬r.content.length < 65535) (rest : Bytes) : ∃ head' headers tail,
      head ++ blankLines (n + 1) ++ r.content ++ c :: rest = head' ++ tail ∧
        Head before head' headers ∧ TooLong headers tail :=
    ⟨head, r.headers, blankLines (n + 1) ++ (r.content ++ (c :: rest)), by simp, hhead,
      .content hdeclared hcr (not_lt.mp hlen)⟩
  rw [hamParserConsume]
  simp only
  split_ifs with hreturn
  · by_cases hfit : r.content.length < 65535
    · simp only [terminate, access, written, declared, Region.size, hfit, decide_true, if_true]
      refine keeps_at hf ?_
      have hwhole := Whole.content (n := n) hhead hdeclared hne hcr
      simpa [At, hreturn, crlf, cr, lf] using hwhole
    · simp only [terminate, access, written, declared, Region.size, hfit, decide_false,
        Bool.false_eq_true, if_false]
      exact htooLong hfit
  · by_cases hfit : r.content.length < 65535
    · have hstore : store declared ⟨.content, headerName, headerValue, some .content⟩ r c =
          .ok (⟨.content, headerName, headerValue, some .content⟩,
            { r with content := r.content ++ [c] }) := by
        simp [store, access, written, declared, Region.size, hfit]
      rw [hstore]
      refine keeps_at hf ⟨rfl, hdeclared, by simp, ?_, head, n, hhead, List.append_assoc _ _ _⟩
      exact fun hc => (List.mem_append.mp hc).elim hcr
        fun hc => hreturn (List.mem_singleton.mp hc).symm
    · have hstore : store declared ⟨.content, headerName, headerValue, some .content⟩ r c =
          .error .fault := by
        simp [store, access, written, declared, Region.size, hfit]
      rw [hstore]
      exact htooLong hfit

theorem keeps_expectingNewline4 {p : HAMParser} (hstate : p.state = .expectingNewline4)
    {r : HAMReply} (h : At before text p r) :
    Keeps before text c (hamParserConsume declared p r c) := by
  obtain ⟨state, headerName, headerValue, ptr⟩ := p
  subst hstate
  rw [hamParserConsume]
  by_cases hc : c = ch '\n'
  · simp only [hc, decide_true, consumeIf, if_true]
    exact ⟨h, hamParserReset_idle _⟩
  · simp only [hc, decide_false, consumeIf, Bool.false_eq_true, if_false]
    trivial

/-- Every step keeps the position, one case for each state of the parser. -/
theorem keeps_consume {p : HAMParser} {r : HAMReply} (hf : r.finished = false)
    (h : At before text p r) : Keeps before text c (hamParserConsume declared p r c) := by
  cases hstate : p.state with
  | headerLineStart => exact keeps_headerLineStart hstate hf h
  | headerLws => exact keeps_headerLws hstate hf h
  | headerName => exact keeps_headerName hstate hf h
  | spaceBeforeHeaderValue => exact keeps_spaceBeforeHeaderValue hstate hf h
  | headerValue => exact keeps_headerValue hstate hf h
  | expectingNewline2 => exact keeps_expectingNewline2 hstate hf h
  | expectingNewline3 => exact keeps_expectingNewline3 hstate hf h
  | contentStart => exact keeps_contentStart hstate hf h
  | content => exact keeps_content hstate hf h
  | expectingNewline4 => exact keeps_expectingNewline4 hstate h
  | _ =>
    rw [At, hstate] at h
    exact keeps_opening hf (hstate ▸ h.1) h.2.1 h.2.2

end Steps

/-! ## Streams -/

/-- A stream that makes the parser store outside its buffers has a text that is too long. -/
theorem overlong_of_fault {before begun : List Header} {front text stream : Bytes}
    {p : HAMParser} {r : HAMReply} (hfront : Replies before front begun) (hat : At begun text p r)
    (hf : r.finished = false)
    (hfault : ((decoder declared).feed (p, r) stream).2 = .error .fault) :
    Overlong before (front ++ (text ++ stream)) := by
  induction stream generalizing front begun text p r with
  | nil => cases hfault
  | cons c stream ih =>
    have hstep := keeps_consume (c := c) hf hat
    rw [Decoder.feed] at hfault
    change Keeps begun text c ((decoder declared).step (p, r) c) at hstep
    cases hs : (decoder declared).step (p, r) c with
    | error stop =>
      rw [hs] at hfault hstep
      cases stop with
      | rejected => simp at hfault
      | fault =>
        obtain ⟨head, headers, tail, heq, hhead, htail⟩ := hstep stream
        exact heq ▸ .intro hfront hhead htail
    | ok t =>
      obtain ⟨q, s⟩ := t
      simp only [hs] at hfault hstep
      have hcut : front ++ (text ++ c :: stream) = front ++ (text ++ [c]) ++ ([] ++ stream) := by
        simp
      by_cases hsf : s.finished = true
      · rw [Keeps, if_pos hsf] at hstep
        have hfin : (decoder declared).finished (q, s) = true := hsf
        rw [hfin, if_pos rfl] at hfault
        rw [hcut]
        exact ih (.snoc hfront hstep.1) (at_idle hstep.2 {}) rfl hfault
      · rw [Keeps, if_neg hsf] at hstep
        have hfin : (decoder declared).finished (q, s) = false := Bool.eq_false_iff.mpr hsf
        rw [hfin, if_neg Bool.false_ne_true] at hfault
        have happend : text ++ c :: stream = (text ++ [c]) ++ stream := by simp
        rw [happend]
        exact ih hfront hstep (Bool.eq_false_iff.mpr hsf) hfault

/-- The unbounded parser reads a text that is too long up to a byte that the real one stores
outside its buffers. -/
theorem TooLong.reaches {headers : List Header} {tail : Bytes} (h : TooLong headers tail)
    {p : HAMParser} (hp : p.state = .headerLineStart) {r : HAMReply} (hf : r.finished = false)
    (hr : r.headers = headers) (hptr : headers = [] → p.ptr = none) :
    ∃ run c rest s, tail = run ++ c :: rest ∧ (decoder free).parse (p, r) run = .more s ∧
      (decoder declared).step s c = .error .fault := by
  cases h with
  | name hname hlen hc =>
    rename_i name c rest
    have hrun := parse_headerName free p hp r hf hname.1 hname.2 (room_free _ _)
    obtain ⟨h1, h2, h3⟩ := isToken_iff.mp hc
    have hcolon : c ≠ ch ':' := ne_of_isToken hc (by decide)
    refine ⟨name, c, rest, _, rfl, hrun, ?_⟩
    simp [decoder, hamParserConsume, hcolon, h1, h2, h3, store, access, written, declared,
      Region.size, not_lt.mpr hlen]
  | nameEnd hname hlen =>
    rename_i name rest
    have hrun := parse_headerName free p hp r hf hname.1 hname.2 (room_free _ _)
    have hcolon : (decoder free).parse
        ({ p with state := .headerName, ptr := some .headerName, headerName := name }, r) [ch ':'] =
        .more ({ p with
          state := .spaceBeforeHeaderValue, ptr := some .headerName, headerName := name }, r) :=
      parse_char free _ (by simp [hamParserConsume]) hf []
    refine ⟨name ++ [ch ':'], ch ' ', rest, _, ?_, (decoder free).more_trans hrun hcolon, ?_⟩
    · simp [bytes]
    · simp [decoder, hamParserConsume, terminate, access, written, declared, Region.size,
        not_lt.mpr hlen]
  | value hname hvalue hlen hc =>
    rename_i name value c rest
    have hrun := parse_headerName free p hp r hf hname.1 hname.2 (room_free _ _)
    have hcolon := parse_nameEnd free
      { p with state := .headerName, ptr := some .headerName, headerName := name } rfl rfl r hf
      (room_free _ _)
    have hstored := parse_headerValue free
      { p with
        state := .headerValue, ptr := some .headerValue, headerName := name, headerValue := [] }
      rfl rfl rfl r hf hvalue (room_free _ _)
    refine ⟨name ++ (bytes ": " ++ value), c, rest, _, by simp, (decoder free).more_trans hrun
      ((decoder free).more_trans hcolon hstored), ?_⟩
    by_cases hreturn : c = ch '\r'
    · simp [decoder, hamParserConsume, hreturn, terminate, access, written, declared, Region.size,
        not_lt.mpr hlen]
    · have hclean := hc.resolve_left hreturn
      simp [decoder, hamParserConsume, hreturn, hclean, store, access, written, declared,
        Region.size, not_lt.mpr hlen]
  | white hnone hwhite hspace hclean =>
    rename_i white c rest
    have hrun := parse_white hp hf (hr.trans hnone) hwhite
    have hreturn : c ≠ ch '\r' := ne_of_isControl hclean (by decide)
    have htab : c ≠ ch '\t' := ne_of_isControl hclean (by decide)
    refine ⟨white, c, rest, _, rfl, hrun, ?_⟩
    simp [decoder, hamParserConsume, hreturn, hspace, htab, hclean, store, access, hptr hnone]
  | content hdeclared hcr hlen =>
    rename_i n body c rest
    have hblank := parse_toContent hp hf (hr ▸ hdeclared) n
    have hne : body ≠ [] := by
      rintro rfl
      simp at hlen
    have hstored := parse_body free { p with state := .contentStart } rfl r hf hne hcr
      (room_free _ _)
    refine ⟨blankLines (n + 1) ++ body, c, rest, _, by simp,
      (decoder free).more_trans hblank hstored, ?_⟩
    by_cases hreturn : c = ch '\r'
    · simp [decoder, hamParserConsume, hreturn, terminate, access, written, declared, Region.size,
        not_lt.mpr hlen]
    · simp [decoder, hamParserConsume, hreturn, store, access, written, declared, Region.size,
        not_lt.mpr hlen]

/-- A text that is too long makes the parser store outside its buffers, there or before. -/
theorem fault_of_overlong {before : List Header} {stream : Bytes} (h : Overlong before stream)
    {p : HAMParser} (hp : p.Idle) {r : HAMReply} (hf : r.finished = false)
    (hr : r.headers = before) : ((decoder declared).feed (p, r) stream).2 = .error .fault := by
  obtain ⟨hreplies, hhead, htail⟩ := h
  obtain ⟨msgs, q, s, hfeed, hq, hsf, hs⟩ := feed_replies hreplies hp hf hr
  obtain ⟨q', s', hparse, hstate, hs', hsf', hptr⟩ := parse_head hhead hq hsf hs
  obtain ⟨run, c, rest, t, rfl, hrun, hfault⟩ := htail.reaches hstate hsf' hs' hptr
  rename_i front _ head _
  have hread := (decoder free).feed_append hfeed (head ++ run)
  rw [(decoder free).feed_of_more ((decoder free).more_trans hparse hrun)] at hread
  have hstop := (decoder_guards declared).feed_error rfl hread hfault rest
  simpa using hstop

/-- No store of the parser, fed with the stream, is outside its buffers or through the null
pointer. -/
def InBounds (p : HAMParser) (r : HAMReply) (stream : Bytes) : Prop :=
  ((decoder declared).feed (p, r) stream).2 ≠ .error .fault

instance (p : HAMParser) (r : HAMReply) (stream : Bytes) : Decidable (InBounds p r stream) :=
  inferInstanceAs (Decidable (_ ≠ _))

/-- The parser stays in its buffers on exactly the streams without a text that is too long. -/
theorem inBounds_iff {p : HAMParser} (hp : p.Idle) {r : HAMReply} (hf : r.finished = false)
    (stream : Bytes) : InBounds p r stream ↔ ¬Overlong r.headers stream :=
  not_congr ⟨fun hfault => overlong_of_fault .nil (at_idle hp r) hf hfault,
    fun h => fault_of_overlong h hp hf rfl⟩

theorem inBounds_shortReply :
    InBounds {} {} (bytes "HTTP/1.1 200 OK\r\nContent-Length: 0\r\n\r\n") ∧
      ¬Overlong [] (bytes "HTTP/1.1 200 OK\r\nContent-Length: 0\r\n\r\n") := by
  have hbounds : InBounds {} {} (bytes "HTTP/1.1 200 OK\r\nContent-Length: 0\r\n\r\n") := by
    decide +kernel
  exact ⟨hbounds, (inBounds_iff ⟨rfl, rfl⟩ rfl _).mp hbounds⟩

/-- A first header line that begins with a blank. -/
theorem not_inBounds_blank : ¬InBounds {} {} (bytes "HTTP/1.1 200 OK\r\n X-Call: ok2jrq\r\n") := by
  decide +kernel

end Hamlog.Library
