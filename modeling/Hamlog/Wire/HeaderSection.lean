import Hamlog.Library.ParserRuns
import Hamlog.Server.RequestRuns

/-! # The header sections of the two parsers

From the first header line to the blank line, `HAMParser` is a copy of
`RequestParser` with other storage and one guard turned around: the server reads
a line that begins with a blank behind a header, the client in front of the first
one. Where no line begins with a blank the two go through the same states.
-/
namespace Hamlog.Wire
open Foundation Library Server

/-- How a parser reads a header section: up to the blank line, with the headers it recorded, up to
a byte that it refuses, or to the end of the bytes. The number counts the bytes consumed. -/
inductive SectionResult where
  | accepted (count : ℕ) (headers : List Header)
  | rejected (count : ℕ)
  | incomplete
  | fault
  deriving DecidableEq

/-- A decoder on the bytes behind `count` others. `atBlank` are the states in which the line feed of
the blank line is read. -/
def readSection {σ ε : Type*} (D : Decoder σ Byte ε) (atBlank : σ → Bool)
    (headers : σ → List Header) (stopped : ε → ℕ → SectionResult) (count : ℕ) (s : σ) :
    Bytes → SectionResult
  | [] => .incomplete
  | input :: rest =>
    match D.step s input with
    | .error stop => stopped stop count
    | .ok t =>
      if atBlank s then .accepted (count + 1) (headers t)
      else readSection D atBlank headers stopped (count + 1) t rest

def serverSection (count : ℕ) (state : RequestParser.State) (req : Request) :
    Bytes → SectionResult :=
  readSection RequestParser.decoder (fun s => s.1 = .expectingNewline3) (fun s => s.2.headers)
    (fun _ n => .rejected n) count (state, req)

def clientSection (count : ℕ) (parser : HAMParser) (reply : HAMReply) : Bytes → SectionResult :=
  readSection (decoder declared) (fun s => s.1.state = .expectingNewline3) (fun s => s.2.headers)
    (fun stop n => if stop = .rejected then .rejected n else .fault) count (parser, reply)

/-- The lines of headers that the wire format can carry. -/
def headerLines (headers : List Header) : Bytes := headers.flatMap headerLine

/-- The names and the values of the text are shorter than 512 bytes, wherever the text ends. -/
structure ShortParts (text : Bytes) : Prop where
  name : ∀ headers name rest, (∀ h ∈ headers, Header.Clean h) → (∀ c ∈ name, isToken c) →
    text = headerLines headers ++ (name ++ rest) → name.length < 512
  value : ∀ headers name value rest, (∀ h ∈ headers, Header.Clean h) → (∀ c ∈ name, isToken c) →
    (∀ c ∈ value, isControl c = false) →
    text = headerLines headers ++ (name ++ bytes ": " ++ (value ++ rest)) → value.length < 512

/-- No line begins with a blank, as far as the text is one of header lines. -/
def NoBlankLine (text : Bytes) : Prop :=
  ∀ headers c rest, (∀ h ∈ headers, Header.Clean h) → text = headerLines headers ++ c :: rest →
    c ≠ ch ' ' ∧ c ≠ ch '\t'

/-- Both parsers read the section to the same byte and record the same headers. -/
def SectionsAgree (parser : HAMParser) (reply : HAMReply) (req : Request) (text : Bytes) : Prop :=
  serverSection 0 .headerLineStart req text = clientSection 0 parser reply text

instance (parser : HAMParser) (reply : HAMReply) (req : Request) (text : Bytes) :
    Decidable (SectionsAgree parser reply req text) := inferInstanceAs (Decidable (_ = _))

/-! ## The states that belong together -/

/-- The states of the two parsers behind the bytes `past`. -/
inductive Joint : Bytes → RequestParser.State → Request → HAMParser → HAMReply → Prop where
  | lineStart {req parser reply} (state : parser.state = .headerLineStart)
      (clean : ∀ h ∈ reply.headers, Header.Clean h) (headers : req.headers = reply.headers) :
      Joint (headerLines reply.headers) .headerLineStart req parser reply
  | name {req parser reply} (state : parser.state = .headerName)
      (ptr : parser.ptr = some .headerName) (clean : ∀ h ∈ reply.headers, Header.Clean h)
      (ne_nil : parser.headerName ≠ []) (token : ∀ c ∈ parser.headerName, isToken c)
      (headers : req.headers = reply.headers ++ [⟨parser.headerName, []⟩]) :
      Joint (headerLines reply.headers ++ parser.headerName) .headerName req parser reply
  | colon {req parser reply} (state : parser.state = .spaceBeforeHeaderValue)
      (ptr : parser.ptr = some .headerName) (clean : ∀ h ∈ reply.headers, Header.Clean h)
      (ne_nil : parser.headerName ≠ []) (token : ∀ c ∈ parser.headerName, isToken c)
      (headers : req.headers = reply.headers ++ [⟨parser.headerName, []⟩]) :
      Joint (headerLines reply.headers ++ (parser.headerName ++ [ch ':'])) .spaceBeforeHeaderValue
        req parser reply
  | value {req parser reply} (state : parser.state = .headerValue)
      (ptr : parser.ptr = some .headerValue) (clean : ∀ h ∈ reply.headers, Header.Clean h)
      (ne_nil : parser.headerName ≠ []) (token : ∀ c ∈ parser.headerName, isToken c)
      (valueClean : ∀ c ∈ parser.headerValue, isControl c = false)
      (headers : req.headers = reply.headers ++ [⟨parser.headerName, parser.headerValue⟩]) :
      Joint (headerLines reply.headers ++ (parser.headerName ++ bytes ": " ++ parser.headerValue))
        .headerValue req parser reply
  | lineEnd {past req parser reply} (state : parser.state = .expectingNewline2)
      (clean : ∀ h ∈ reply.headers, Header.Clean h) (headers : req.headers = reply.headers)
      (lines : past ++ [ch '\n'] = headerLines reply.headers) :
      Joint past .expectingNewline2 req parser reply
  | blank {past req parser reply} (state : parser.state = .expectingNewline3)
      (headers : req.headers = reply.headers) : Joint past .expectingNewline3 req parser reply

/-! ## One byte -/

/-- Both parsers refuse the byte, or both read it and stay together, up to the line feed of the
blank line. -/
def StepTogether (past : Bytes) (state : RequestParser.State) (req : Request) (parser : HAMParser)
    (reply : HAMReply) (c : Byte) : Prop :=
  RequestParser.handleChar state req c = none ∧
      hamParserConsume declared parser reply c = .error .rejected ∨
    ∃ state' req' parser' reply',
      RequestParser.handleChar state req c = some (state', req') ∧
      hamParserConsume declared parser reply c = .ok (parser', reply') ∧
      if state = .expectingNewline3 then req'.headers = reply'.headers
      else Joint (past ++ [c]) state' req' parser' reply'

variable {past text : Bytes} {req : Request} {parser : HAMParser} {reply : HAMReply} {c : Byte}

theorem not_token_eq (c : Byte) : (!isChar c || isControl c || isSpecial c) = !isToken c := by
  simp [isToken]

theorem Joint.parser_state {state : RequestParser.State} (h : Joint past state req parser reply) :
    parser.state = .expectingNewline3 ↔ state = .expectingNewline3 := by
  cases h <;> simp [*]

theorem step_lineStart (state : parser.state = .headerLineStart)
    (clean : ∀ h ∈ reply.headers, Header.Clean h) (headers : req.headers = reply.headers)
    (hspace : c ≠ ch ' ') (htab : c ≠ ch '\t') :
    StepTogether (headerLines reply.headers) .headerLineStart req parser reply c := by
  by_cases hcr : c = ch '\r'
  · subst hcr
    exact .inr ⟨.expectingNewline3, req, { parser with state := .expectingNewline3 }, reply, rfl,
      by simp [hamParserConsume, state], .blank rfl headers⟩
  cases htoken : isToken c with
  | false =>
    refine .inl ⟨?_, ?_⟩
    · simp [RequestParser.handleChar, hcr, hspace, htab, not_token_eq, htoken]
    · simp [hamParserConsume, state, hcr, hspace, htab, not_token_eq, htoken]
  | true =>
    let next : HAMParser :=
      { parser with state := .headerName, ptr := some .headerName, headerName := [c] }
    refine .inr ⟨.headerName, { req with headers := req.headers ++ [⟨[c], []⟩] }, next, reply,
      ?_, ?_, ?_⟩
    · simp [RequestParser.handleChar, hcr, hspace, htab, not_token_eq, htoken]
    · simp [hamParserConsume, state, hcr, hspace, htab, not_token_eq, htoken, store, access,
        written, declared, Region.size, next]
    · change Joint (headerLines reply.headers ++ next.headerName) _ _ next _
      exact .name rfl rfl clean (by simp [next]) (by simpa [next] using htoken)
        (by simp [headers, next])

theorem step_name (state : parser.state = .headerName) (ptr : parser.ptr = some .headerName)
    (clean : ∀ h ∈ reply.headers, Header.Clean h) (ne_nil : parser.headerName ≠ [])
    (token : ∀ c ∈ parser.headerName, isToken c)
    (headers : req.headers = reply.headers ++ [⟨parser.headerName, []⟩])
    (hlength : parser.headerName.length < 512) :
    StepTogether (headerLines reply.headers ++ parser.headerName) .headerName req parser reply
      c := by
  by_cases hcolon : c = ch ':'
  · subst hcolon
    let next : HAMParser := { parser with state := .spaceBeforeHeaderValue }
    refine .inr ⟨.spaceBeforeHeaderValue, req, next, reply, rfl,
      by simp [hamParserConsume, state, next], ?_⟩
    rw [if_neg (by simp), List.append_assoc]
    change Joint (headerLines reply.headers ++ (next.headerName ++ [ch ':'])) _ _ next _
    exact .colon rfl ptr clean ne_nil token headers
  cases htoken : isToken c with
  | false =>
    refine .inl ⟨?_, ?_⟩
    · simp [RequestParser.handleChar, hcolon, not_token_eq, htoken]
    · simp [hamParserConsume, state, hcolon, not_token_eq, htoken]
  | true =>
    let next : HAMParser := { parser with headerName := parser.headerName ++ [c] }
    refine .inr ⟨.headerName, req.pushName c, next, reply, ?_, ?_, ?_⟩
    · simp [RequestParser.handleChar, hcolon, not_token_eq, htoken]
    · simp [hamParserConsume, state, hcolon, not_token_eq, htoken, store, access, written, ptr,
        declared, Region.size, hlength, next]
    · rw [if_neg (by simp), List.append_assoc]
      change Joint (headerLines reply.headers ++ next.headerName) _ _ next _
      refine .name state ptr clean (by simp [next]) ?_ ?_
      · simpa [next, or_imp, forall_and] using ⟨token, htoken⟩
      · simp [next, Request.pushName, headers, List.modifyLast_concat]

/-- Only the blank behind the colon is read, and the zero behind the name fits. -/
theorem step_colon (state : parser.state = .spaceBeforeHeaderValue)
    (ptr : parser.ptr = some .headerName) (clean : ∀ h ∈ reply.headers, Header.Clean h)
    (ne_nil : parser.headerName ≠ []) (token : ∀ c ∈ parser.headerName, isToken c)
    (headers : req.headers = reply.headers ++ [⟨parser.headerName, []⟩])
    (hlength : parser.headerName.length < 512) :
    StepTogether (headerLines reply.headers ++ (parser.headerName ++ [ch ':']))
      .spaceBeforeHeaderValue req parser reply c := by
  by_cases hspace : c = ch ' '
  · subst hspace
    let next : HAMParser :=
      { parser with state := .headerValue, ptr := some .headerValue, headerValue := [] }
    refine .inr ⟨.headerValue, req, next, reply,
      by simp [RequestParser.handleChar, RequestParser.expect], ?_, ?_⟩
    · simp [hamParserConsume, state, terminate, access, written, ptr, declared, Region.size,
        hlength, next]
    · have hpast : headerLines reply.headers ++ (parser.headerName ++ [ch ':']) ++ [ch ' '] =
          headerLines reply.headers ++ (next.headerName ++ bytes ": " ++ next.headerValue) := by
        simp only [next, List.append_assoc, List.append_nil]
        rfl
      rw [if_neg (by simp), hpast]
      exact .value rfl rfl clean ne_nil token (by simp [next]) headers
  · refine .inl ⟨?_, ?_⟩
    · simp [RequestParser.handleChar, RequestParser.expect, hspace]
    · simp [hamParserConsume, state, hspace]

theorem step_value (state : parser.state = .headerValue) (ptr : parser.ptr = some .headerValue)
    (clean : ∀ h ∈ reply.headers, Header.Clean h) (ne_nil : parser.headerName ≠ [])
    (token : ∀ c ∈ parser.headerName, isToken c)
    (valueClean : ∀ c ∈ parser.headerValue, isControl c = false)
    (headers : req.headers = reply.headers ++ [⟨parser.headerName, parser.headerValue⟩])
    (hlength : parser.headerValue.length < 512) :
    StepTogether
      (headerLines reply.headers ++ (parser.headerName ++ bytes ": " ++ parser.headerValue))
      .headerValue req parser reply c := by
  by_cases hcr : c = ch '\r'
  · subst hcr
    have hname : cstr parser.headerName = parser.headerName := cstr_of_notMem fun h0 =>
      absurd (token 0 h0) (by decide)
    have hvalue : cstr parser.headerValue = parser.headerValue := cstr_of_notMem fun h0 =>
      absurd (valueClean 0 h0) (by decide)
    have hclean : ∀ h ∈ reply.headers ++ [⟨parser.headerName, parser.headerValue⟩],
        Header.Clean h := by
      intro h hh
      rcases List.mem_append.mp hh with hh | hh
      · exact clean h hh
      · rw [List.mem_singleton.mp hh]
        exact ⟨ne_nil, token, valueClean⟩
    refine .inr ⟨.expectingNewline2, req, { parser with state := .expectingNewline2 },
      hamReplyAddHeader reply ⟨parser.headerName, parser.headerValue⟩, rfl, ?_, ?_⟩
    · simp [hamParserConsume, state, terminate, access, written, ptr, declared, Region.size,
        hlength, hname, hvalue]
    · rw [if_neg (by simp)]
      refine .lineEnd rfl hclean headers ?_
      simp [hamReplyAddHeader, headerLines, headerLine, crlf, cr, lf]
  cases hcontrol : isControl c with
  | true =>
    refine .inl ⟨?_, ?_⟩
    · simp [RequestParser.handleChar, hcr, hcontrol]
    · simp [hamParserConsume, state, hcr, hcontrol]
  | false =>
    let next : HAMParser := { parser with headerValue := parser.headerValue ++ [c] }
    refine .inr ⟨.headerValue, req.pushValue c, next, reply, ?_, ?_, ?_⟩
    · simp [RequestParser.handleChar, hcr, hcontrol]
    · simp [hamParserConsume, state, hcr, hcontrol, store, access, written, ptr, declared,
        Region.size, hlength, next]
    · rw [if_neg (by simp), List.append_assoc, List.append_assoc _ _ [c]]
      change Joint
        (headerLines reply.headers ++ (next.headerName ++ bytes ": " ++ next.headerValue)) _ _
        next _
      refine .value state ptr clean ne_nil token ?_ ?_
      · simpa [next, or_imp, forall_and] using ⟨valueClean, hcontrol⟩
      · simp [next, Request.pushValue, headers, List.modifyLast_concat]

theorem step_lineEnd (state : parser.state = .expectingNewline2)
    (clean : ∀ h ∈ reply.headers, Header.Clean h) (headers : req.headers = reply.headers)
    (lines : past ++ [ch '\n'] = headerLines reply.headers) :
    StepTogether past .expectingNewline2 req parser reply c := by
  by_cases hlf : c = ch '\n'
  · subst hlf
    refine .inr ⟨.headerLineStart, req, { parser with state := .headerLineStart }, reply,
      by simp [RequestParser.handleChar, RequestParser.expect],
      by simp [hamParserConsume, state, consumeIf], ?_⟩
    rw [if_neg (by simp), lines]
    exact .lineStart rfl clean headers
  · refine .inl ⟨?_, ?_⟩
    · simp [RequestParser.handleChar, RequestParser.expect, hlf]
    · simp [hamParserConsume, state, consumeIf, hlf]

/-- The line feed of the blank line, whether or not a content follows. -/
theorem step_blank (state : parser.state = .expectingNewline3)
    (headers : req.headers = reply.headers) :
    StepTogether past .expectingNewline3 req parser reply c := by
  by_cases hlf : c = ch '\n'
  · subst hlf
    refine .inr ?_
    by_cases hserver : req.hasHeader contentLengthName <;>
      by_cases hclient : declaresContent reply <;>
      simp [RequestParser.handleChar, hamParserConsume, state, hserver, hclient, headers]
  · refine .inl ⟨?_, ?_⟩
    · simp [RequestParser.handleChar, hlf]
    · simp [hamParserConsume, state, hlf]

/-- The two parsers stay together over a byte that does not begin a line with a blank. -/
theorem Joint.step {state : RequestParser.State} {rest : Bytes}
    (h : Joint past state req parser reply) (hshort : ShortParts (past ++ c :: rest))
    (hblank : state = .headerLineStart → c ≠ ch ' ' ∧ c ≠ ch '\t') :
    StepTogether past state req parser reply c := by
  cases h with
  | lineStart state clean headers =>
    obtain ⟨hspace, htab⟩ := hblank rfl
    exact step_lineStart state clean headers hspace htab
  | name state ptr clean ne_nil token headers =>
    exact step_name state ptr clean ne_nil token headers
      (hshort.name reply.headers parser.headerName (c :: rest) clean token (by simp))
  | colon state ptr clean ne_nil token headers =>
    exact step_colon state ptr clean ne_nil token headers
      (hshort.name reply.headers parser.headerName (ch ':' :: c :: rest) clean token (by simp))
  | value state ptr clean ne_nil token valueClean headers =>
    exact step_value state ptr clean ne_nil token valueClean headers
      (hshort.value reply.headers parser.headerName parser.headerValue (c :: rest) clean token
        valueClean (by simp))
  | lineEnd state clean headers lines => exact step_lineEnd state clean headers lines
  | blank state headers => exact step_blank state headers

/-! ## The whole section -/

theorem sections_eq {state : RequestParser.State} (count : ℕ)
    (h : Joint past state req parser reply) (hshort : ShortParts (past ++ text))
    (hblank : NoBlankLine (past ++ text)) :
    serverSection count state req text = clientSection count parser reply text := by
  induction text generalizing past state req parser reply count with
  | nil => rfl
  | cons c rest ih =>
    have hstart : state = .headerLineStart → c ≠ ch ' ' ∧ c ≠ ch '\t' := by
      rintro rfl
      cases h with
      | lineStart _ clean _ => exact hblank reply.headers c rest clean rfl
    have hparser := h.parser_state
    have hclientStep : (decoder declared).step (parser, reply) c =
        hamParserConsume declared parser reply c := rfl
    simp only [serverSection, clientSection, readSection]
    rcases h.step hshort hstart with ⟨hserver, hclient⟩ |
      ⟨state', req', parser', reply', hserver, hclient, hnext⟩
    · simp [RequestParser.decoder_step_none hserver, hclientStep, hclient]
    · rw [RequestParser.decoder_step hserver, hclientStep, hclient]
      by_cases hend : state = .expectingNewline3
      · rw [if_pos hend] at hnext
        simp [hend, hparser.mpr hend, hnext]
      · rw [if_neg hend] at hnext
        have hlines : past ++ c :: rest = past ++ [c] ++ rest := by simp
        rw [hlines] at hshort hblank
        simpa [serverSection, clientSection, hend, hparser.not.mpr hend] using
          ih (count + 1) hnext hshort hblank

/-! ## Behind complete header lines -/

section ReadSection
variable {σ ε : Type*} {D : Decoder σ Byte ε} {atBlank : σ → Bool} {headers : σ → List Header}
  {stopped : ε → ℕ → SectionResult}

/-- A section is refused at one of its own bytes. -/
theorem readSection_rejected (hstopped : ∀ stop n m, stopped stop n = .rejected m → m = n)
    {count n : ℕ} {s : σ}
    (h : readSection D atBlank headers stopped count s text = .rejected n) : count ≤ n := by
  induction text generalizing count s with
  | nil => cases h
  | cons c rest ih =>
    rw [readSection] at h
    split at h
    · exact (hstopped _ _ _ h).ge
    · split_ifs at h
      exact Nat.le_of_succ_le (ih h)

/-- Bytes that are read silently, and do not lead behind the blank line, move the count only. -/
theorem readSection_append {front : Bytes} {count : ℕ} {s t : σ}
    (hbehind : ∀ u a v rest, atBlank u = true → D.step u a = .ok v → D.parse v rest ≠ .more t)
    (h : D.parse s front = .more t) :
    readSection D atBlank headers stopped count s (front ++ text) =
      readSection D atBlank headers stopped (count + front.length) t text := by
  induction front generalizing count s with
  | nil =>
    cases h
    rfl
  | cons c rest ih =>
    cases hstep : D.step s c with
    | error stop => simp [D.parse_cons_fail hstep] at h
    | ok u =>
      cases hfinished : D.finished u with
      | true => simp [D.parse_cons_done hstep hfinished] at h
      | false =>
        rw [D.parse_cons_more hstep hfinished] at h
        have hblank : ¬ atBlank s = true := fun hblank => hbehind s c u rest hblank hstep h
        simp only [List.cons_append, readSection, hstep, hblank, List.length_cons]
        rw [if_neg (by simp), ih h, Nat.add_right_comm, Nat.add_assoc]

end ReadSection

/-- From the blank line on, the server's parser finishes the request before it reads a header. -/
def ServerBehind (s : RequestParser.State × Request) : Prop :=
  s.2.finished = true ∨
    s.1 ∈ [.expectingNewline3, .contentStart, .content, RequestParser.State.expectingNewline4]

theorem ServerBehind.step {s t : RequestParser.State × Request} (h : ServerBehind s)
    (hstep : RequestParser.decoder.step s c = .ok t) : ServerBehind t := by
  obtain ⟨state, req⟩ := s
  have hchar := RequestParser.handleChar_of_step hstep
  rcases h with hfinished | hstate
  · refine .inl ?_
    cases state <;>
      simp only [RequestParser.handleChar, RequestParser.expect, Request.pushName,
        Request.pushValue] at hchar
    case uriStart => cases hchar
    all_goals split_ifs at hchar <;> cases hchar <;> simp_all
  · simp only [List.mem_cons, List.not_mem_nil, or_false] at hstate
    rcases hstate with rfl | rfl | rfl | rfl <;> simp only [RequestParser.handleChar] at hchar <;>
      split_ifs at hchar <;> cases hchar <;> simp [ServerBehind]

def ClientBehind (s : HAMParser × HAMReply) : Prop :=
  s.2.finished = true ∨
    s.1.state ∈ [.expectingNewline3, .contentStart, .content, HAMParserState.expectingNewline4]

theorem ClientBehind.step {s t : HAMParser × HAMReply} (h : ClientBehind s)
    (hstep : hamParserConsume declared s.1 s.2 c = .ok t) : ClientBehind t := by
  obtain ⟨parser, reply⟩ := s
  obtain ⟨parser', reply'⟩ := t
  unfold hamParserConsume at hstep
  rcases h with hfinished | hstate
  · refine .inl ?_
    dsimp only at hfinished
    cases hstate : parser.state <;> simp only [hstate, consumeIf] at hstep <;>
      split_ifs at hstep
    all_goals first
      | cases hstep
        simp_all
      | cases terminate_ok hstep
        simp_all [hamReplyAddHeader]
      | obtain ⟨-, -, hf⟩ := store_ok hstep
        simp_all
  · simp only [List.mem_cons, List.not_mem_nil, or_false] at hstate
    rcases hstate with hstate | hstate | hstate | hstate <;>
      simp only [hstate, consumeIf] at hstep <;> split_ifs at hstep
    all_goals first
      | cases hstep
        simp [ClientBehind]
      | cases terminate_ok hstep
        simp [ClientBehind]
      | obtain ⟨hs, -, -⟩ := store_ok hstep
        simp_all [ClientBehind]

theorem serverSection_rejected {count n : ℕ} {state : RequestParser.State}
    (h : serverSection count state req text = .rejected n) : count ≤ n :=
  readSection_rejected (fun _ _ _ h => (SectionResult.rejected.inj h).symm) h

theorem clientSection_rejected {count n : ℕ}
    (h : clientSection count parser reply text = .rejected n) : count ≤ n := by
  refine readSection_rejected ?_ h
  intro stop n m hstopped
  split_ifs at hstopped
  exact (SectionResult.rejected.inj hstopped).symm

/-- Complete header lines in front of a section, in the server's parser. -/
theorem serverSection_lines (count : ℕ) (hf : req.finished = false) {headers : List Header}
    (hclean : ∀ h ∈ headers, Header.Clean h) :
    serverSection count .headerLineStart req (headerLines headers ++ text) =
      serverSection (count + (headerLines headers).length) .headerLineStart
        { req with headers := req.headers ++ headers } text := by
  refine readSection_append ?_ (RequestParser.parse_headers req hf hclean)
  intro u a v rest hblank hstep hmore
  have hbehind := RequestParser.decoder.parse_invariant ServerBehind
    (fun _ _ _ hs hstep => hs.step hstep)
    (ServerBehind.step (.inr (by simp [of_decide_eq_true hblank])) hstep) rest
  rw [hmore] at hbehind
  simp [ServerBehind, Outcome.state, hf] at hbehind

theorem clientSection_lines (count : ℕ) (hstate : parser.state = .headerLineStart)
    (hf : reply.finished = false) {headers : List Header}
    (hclean : ∀ h ∈ headers, Header.Clean h)
    (hshort : ∀ h ∈ headers, h.name.length < 512 ∧ h.value.length < 512) (text : Bytes) :
    ∃ parser' : HAMParser, parser'.state = .headerLineStart ∧
      clientSection count parser reply (headerLines headers ++ text) =
        clientSection (count + (headerLines headers).length) parser'
          { reply with headers := reply.headers ++ headers } text := by
  obtain ⟨parser', hstate', hparse⟩ := parse_headers declared parser hstate reply hf hclean
    fun h hh => ⟨room_declared (hshort h hh).1, room_declared (hshort h hh).2⟩
  refine ⟨parser', hstate', readSection_append ?_ hparse⟩
  intro u a v rest hblank hstep hmore
  have hbehind := (decoder declared).parse_invariant ClientBehind
    (fun _ _ _ hs hstep => hs.step hstep)
    (ClientBehind.step (.inr (by simp [of_decide_eq_true hblank])) hstep) rest
  rw [hmore] at hbehind
  simp [ClientBehind, Outcome.state, hf, hstate'] at hbehind

/-- The headers of complete lines are as short as the text's parts. -/
theorem ShortParts.lines {headers : List Header} {rest : Bytes}
    (h : ShortParts (headerLines headers ++ rest)) (hclean : ∀ h ∈ headers, Header.Clean h) :
    ∀ h ∈ headers, h.name.length < 512 ∧ h.value.length < 512 := by
  intro header hmem
  obtain ⟨front, behind, rfl⟩ := List.append_of_mem hmem
  have hfront : ∀ h ∈ front, Header.Clean h := fun h hh => hclean h (by simp [hh])
  have hheader := hclean header hmem
  constructor
  · refine h.name front header.name (bytes ": " ++ header.value ++ crlf ++ headerLines behind ++
      rest) hfront hheader.name_token ?_
    simp [headerLines, headerLine]
  · refine h.value front header.name header.value (crlf ++ headerLines behind ++ rest) hfront
      hheader.name_token hheader.value_clean ?_
    simp [headerLines, headerLine]

/-- Only one of the parsers reads a line that begins with a blank. -/
theorem sections_ne_of_blank (count : ℕ) (hstate : parser.state = .headerLineStart)
    (hheaders : req.headers = reply.headers) (hblank : c = ch ' ' ∨ c = ch '\t') :
    serverSection count .headerLineStart req (c :: text) ≠
      clientSection count parser reply (c :: text) := by
  have hcr : c ≠ ch '\r' := by rcases hblank with rfl | rfl <;> decide
  have htoken : isToken c = false := by rcases hblank with rfl | rfl <;> decide
  have hclientStep : (decoder declared).step (parser, reply) c =
      hamParserConsume declared parser reply c := rfl
  by_cases hnil : reply.headers = []
  · have hserver : RequestParser.handleChar .headerLineStart req c = none := by
      simp [RequestParser.handleChar, hcr, hheaders, hnil, not_token_eq, htoken]
    have hclient : hamParserConsume declared parser reply c =
        .ok ({ parser with state := .headerLws }, reply) := by
      simp [hamParserConsume, hstate, hcr, hnil, hblank]
    intro h
    simp only [serverSection, clientSection, readSection, RequestParser.decoder_step_none hserver,
      hclientStep, hclient, hstate] at h
    exact absurd (clientSection_rejected h.symm) (by omega)
  · have hserver : RequestParser.handleChar .headerLineStart req c = some (.headerLws, req) := by
      simp [RequestParser.handleChar, hcr, hheaders, hnil, hblank]
    have hclient : hamParserConsume declared parser reply c = .error .rejected := by
      simp [hamParserConsume, hstate, hcr, hnil, not_token_eq, htoken]
    intro h
    simp only [serverSection, clientSection, readSection, RequestParser.decoder_step hserver,
      hclientStep, hclient] at h
    exact absurd (serverSection_rejected h) (by omega)

/-! ## When the sections agree -/

/-- Both parsers behind the first line of a message. -/
structure SectionStart (parser : HAMParser) (reply : HAMReply) (req : Request) : Prop where
  state : parser.state = .headerLineStart
  reply_headers : reply.headers = []
  reply_unfinished : reply.finished = false
  req_headers : req.headers = []
  req_unfinished : req.finished = false

/-- The parsers agree on the texts in which no header line begins with a blank. -/
theorem sectionsAgree_iff (h : SectionStart parser reply req) (hshort : ShortParts text) :
    SectionsAgree parser reply req text ↔ NoBlankLine text := by
  have hheaders : req.headers = reply.headers := by rw [h.req_headers, h.reply_headers]
  constructor
  · intro hagree headers c rest hclean htext
    by_contra hblank
    subst htext
    obtain ⟨parser', hstate', hclient⟩ := clientSection_lines 0 h.state h.reply_unfinished hclean
      (hshort.lines hclean) (c :: rest)
    rw [SectionsAgree, serverSection_lines 0 h.req_unfinished hclean, hclient] at hagree
    exact sections_ne_of_blank _ hstate' (by simp [hheaders]) (by tauto) hagree
  · intro hblank
    have hjoint : Joint (headerLines reply.headers) .headerLineStart req parser reply :=
      .lineStart h.state (by simp [h.reply_headers]) hheaders
    have hpast : headerLines reply.headers ++ text = text := by simp [h.reply_headers, headerLines]
    exact sections_eq 0 hjoint (by rwa [hpast]) (by rwa [hpast])

theorem shortParts_of_length (h : text.length < 512) : ShortParts text where
  name headers name rest _ _ htext := by
    subst htext
    simp only [List.length_append] at h
    omega
  value headers name value rest _ _ _ htext := by
    subst htext
    simp only [List.length_append] at h
    omega

theorem sectionStart_new : SectionStart { state := .headerLineStart } {} {} :=
  ⟨rfl, rfl, rfl, rfl, rfl⟩

theorem sectionsAgree_iff_header :
    SectionsAgree { state := .headerLineStart } {} {} (bytes "A: b\r\n\r\n") ↔
      NoBlankLine (bytes "A: b\r\n\r\n") :=
  sectionsAgree_iff sectionStart_new (shortParts_of_length (by decide))

/-- The server reads a continuation line, and the client refuses it at its first byte. -/
theorem not_sectionsAgree_continuation : ¬ ∀ (parser : HAMParser) (reply : HAMReply)
    (req : Request) (text : Bytes), SectionStart parser reply req → ShortParts text →
    SectionsAgree parser reply req text := by
  intro h
  have hagree := h _ _ _ (bytes "A: b\r\n c\r\n\r\n") sectionStart_new
    (shortParts_of_length (by decide))
  exact absurd hagree (by decide)

end Hamlog.Wire
