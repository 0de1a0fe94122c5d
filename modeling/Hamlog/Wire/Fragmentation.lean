import Hamlog.Library.Connection
import Hamlog.Wire.ReplyRoundTrip

/-! # Replies that arrive in several reads

`ham_connection_read_data` compares the bytes it has parsed with one less than
the bytes it has read, which is what a parse returns that finishes a reply. A
read that only holds a part of a reply is parsed once more with no bytes left,
and that counts as malformed data; a read of one byte is not parsed at all.
Here the loop is followed over any sequence of reads, and no reply survives
being cut.
-/
namespace Hamlog.Wire
open Foundation Server Library

/-- The two replies carry the same message. -/
def SameReply (r s : HAMReply) : Prop :=
  r.status = s.status ∧ r.headers = s.headers ∧ hamReplyGetContent r = hamReplyGetContent s

/-- The reads hand exactly one reply, the one that a single parse of the text gives, to the first
queued handler, and the connection stays open. -/
def DeliversWhole (env : Environment) (connection : HAMConnection) (text : Bytes)
    (reads : List Bytes) : Prop :=
  ∃ n p whole, hamParserParse connection.parser connection.reply text = some (n, p, whole) ∧
    whole.finished = true ∧
    ∃ after events, readAll env connection reads = .ok (after, events) ∧ after.fd ≠ -1 ∧
      ∃ tuple ∈ connection.handlers.head?, ∃ handler ∈ tuple.handler, ∃ reply,
        deliveries events = [(handler, reply, tuple.uiData)] ∧ SameReply reply whole

/-- A connected connection between two replies, with a handler waiting for the next one. -/
structure Waiting (connection : HAMConnection) : Prop where
  connected : connection.fd ≠ -1
  idle : connection.parser.Idle
  fresh : connection.reply = {}
  queued : ∃ handler uiData handlers,
    connection.handlers = ⟨some handler, uiData⟩ :: handlers

/-! ## What the reads do to a parser -/

/-- A relation between the parser, the reply under construction and the bytes still to come that
survives parsing, a reset and the loss of a byte, and that makes any reply finished from it
`Bad`. -/
structure Skims (I : HAMParser → HAMReply → Bytes → Prop) (Bad : HAMReply → Prop) : Prop where
  accept : ∀ {p r c rest q s}, I p r (c :: rest) →
    hamParserConsume declared p r c = .ok (q, s) → s.finished = false → I q s rest
  finish : ∀ {p r c rest q s}, I p r (c :: rest) →
    hamParserConsume declared p r c = .ok (q, s) → s.finished = true → Bad s
  reset : ∀ {p r rest}, I p r rest → I (hamParserReset p) r rest
  skip : ∀ {p r c rest}, I p r (c :: rest) → I p r rest

namespace Skims
variable {I : HAMParser → HAMReply → Bytes → Prop} {Bad : HAMReply → Prop}

theorem skip_append (hI : Skims I Bad) {p : HAMParser} {r : HAMReply} {xs rest : Bytes}
    (h : I p r (xs ++ rest)) : I p r rest := by
  induction xs with
  | nil => exact h
  | cons c xs ih => exact ih (hI.skip h)

theorem parseFrom (hI : Skims I Bad) {parsed n : ℕ} {p q : HAMParser} {r s : HAMReply}
    {data rest : Bytes} (h : I p r (data ++ rest)) (hr : r.finished = false)
    (hp : Library.parseFrom parsed p r data = some (n, q, s)) :
    (s.finished = true ∧ Bad s) ∨
      (s.finished = false ∧ ∃ k, n = parsed + k ∧ I q s (data.drop k ++ rest)) := by
  induction data generalizing parsed p r with
  | nil =>
    simp only [Library.parseFrom, Option.some.injEq, Prod.mk.injEq] at hp
    obtain ⟨rfl, rfl, rfl⟩ := hp
    exact .inr ⟨hr, 0, rfl, h⟩
  | cons c data ih =>
    rw [Library.parseFrom] at hp
    cases hc : hamParserConsume declared p r c with
    | error stop =>
      cases stop with
      | fault => simp [hc] at hp
      | rejected =>
        simp only [hc, Option.some.injEq, Prod.mk.injEq] at hp
        obtain ⟨rfl, rfl, rfl⟩ := hp
        exact .inr ⟨hr, 0, rfl, hI.reset h⟩
    | ok next =>
      obtain ⟨p', r'⟩ := next
      cases hf : r'.finished with
      | true =>
        simp only [hc, hf, if_true, Option.some.injEq, Prod.mk.injEq] at hp
        obtain ⟨-, -, rfl⟩ := hp
        exact .inl ⟨hf, hI.finish h hc hf⟩
      | false =>
        simp only [hc, hf, Bool.false_eq_true, if_false] at hp
        rcases ih (hI.accept h hc hf) hf hp with hbad | ⟨hs, k, hk, hrest⟩
        · exact .inl hbad
        · exact .inr ⟨hs, k + 1, by omega, hrest⟩

/-- What one read, or several, leave: the first delivery is bad, or nothing was delivered and the
connection is closed or still skimming. -/
def After (I : HAMParser → HAMReply → Bytes → Prop) (Bad : HAMReply → Prop)
    (before after : HAMConnection) (events : List Event) (rest : Bytes) : Prop :=
  (∃ handler reply uiData others,
      deliveries events = (handler, reply, uiData) :: others ∧ Bad reply) ∨
    deliveries events = [] ∧ (after.fd = -1 ∨
      after.handlers = before.handlers ∧ after.fd = before.fd ∧ after.reply.finished = false ∧
        I after.parser after.reply rest)

theorem deliver_bad {env : Environment} (connection : HAMConnection)
    (hq : ∃ handler uiData handlers, connection.handlers = ⟨some handler, uiData⟩ :: handlers)
    (events : List Event) (hbad : Bad connection.reply) :
    ∃ handler reply uiData others,
      deliveries ((deliver env connection).2 ++ events) = (handler, reply, uiData) :: others ∧
        Bad reply := by
  obtain ⟨handler, uiData, handlers, hh⟩ := hq
  exact ⟨handler, connection.reply, uiData, _, by simp [deliver, hh, deliveries]; rfl, hbad⟩

theorem readLoop (hI : Skims I Bad) {env : Environment} {fuel : ℕ} (connection : HAMConnection)
    {after : HAMConnection} {data : Bytes} (rest : Bytes) {parsedTotal total : ℕ}
    {events : List Event}
    (hq : ∃ handler uiData handlers, connection.handlers = ⟨some handler, uiData⟩ :: handlers)
    (hr : connection.reply.finished = false)
    (h : I connection.parser connection.reply (data.drop parsedTotal ++ rest))
    (hloop : Library.readLoop env fuel connection data parsedTotal = .ok (after, total, events)) :
    After I Bad connection after events rest := by
  induction fuel generalizing connection parsedTotal after total events with
  | zero => simp [Library.readLoop] at hloop
  | succ fuel ih =>
    rw [Library.readLoop] at hloop
    by_cases hend : parsedTotal = data.length - 1
    · simp only [hend, if_true, Except.ok.injEq, Prod.mk.injEq] at hloop
      obtain ⟨rfl, -, rfl⟩ := hloop
      exact .inr ⟨rfl, .inr ⟨rfl, rfl, hr, hI.skip_append h⟩⟩
    rw [if_neg hend] at hloop
    cases hp : hamParserParse connection.parser connection.reply (data.drop parsedTotal) with
    | none => simp [hp] at hloop
    | some result =>
      obtain ⟨parsed, parser, reply⟩ := result
      rw [hp] at hloop
      by_cases hzero : parsed = 0
      · simp only [hzero, if_true, Except.ok.injEq, Prod.mk.injEq] at hloop
        obtain ⟨rfl, -, rfl⟩ := hloop
        exact .inr ⟨deliveries_disconnect _, .inl (hamConnectionDisconnect_fd _)⟩
      simp only [hzero, if_false] at hloop
      cases hrec : Library.readLoop env fuel
          (handleParsed env { connection with parser, reply }).1 data (parsedTotal + parsed) with
      | error halt => simp [hrec] at hloop
      | ok result =>
        obtain ⟨after', total', events'⟩ := result
        simp only [hrec, Except.ok.injEq, Prod.mk.injEq] at hloop
        obtain ⟨rfl, -, rfl⟩ := hloop
        rcases hI.parseFrom h hr hp with ⟨hf, hbad⟩ | ⟨hf, k, hk, hrest⟩
        · simp only [handleParsed, hf, if_true]
          exact .inl (deliver_bad { connection with parser, reply } hq _ hbad)
        · simp only [handleParsed, hf, Bool.false_eq_true, if_false] at hrec ⊢
          have hk' : parsed = k := by omega
          rw [List.drop_drop, ← hk'] at hrest
          exact ih { connection with parser, reply } hq hf hrest hrec

theorem readAll (hI : Skims I Bad) {env : Environment} {connection after : HAMConnection}
    {reads : List Bytes} {events : List Event}
    (hq : ∃ handler uiData handlers, connection.handlers = ⟨some handler, uiData⟩ :: handlers)
    (hr : connection.reply.finished = false)
    (hreads : ∀ data ∈ reads, data ≠ [] ∧ data.length < 65535)
    (h : I connection.parser connection.reply reads.flatten)
    (hall : Library.readAll env connection reads = .ok (after, events)) :
    After I Bad connection after events [] := by
  induction reads generalizing connection after events with
  | nil =>
    simp only [Library.readAll, Except.ok.injEq, Prod.mk.injEq] at hall
    obtain ⟨rfl, rfl⟩ := hall
    exact .inr ⟨rfl, .inr ⟨rfl, rfl, hr, h⟩⟩
  | cons data reads ih =>
    by_cases hfd : connection.fd = -1
    · rw [readAll_closed env hfd] at hall
      simp only [Except.ok.injEq, Prod.mk.injEq] at hall
      obtain ⟨rfl, rfl⟩ := hall
      exact .inr ⟨rfl, .inl hfd⟩
    obtain ⟨hne, hlen⟩ := hreads data (by simp)
    rw [Library.readAll, hamConnectionReadData_some hfd hne hlen] at hall
    cases hloop : Library.readLoop env (data.length + 1) connection data 0 with
    | error halt => simp [hloop] at hall
    | ok result =>
      obtain ⟨next, total, events1⟩ := result
      simp only [hloop] at hall
      cases hrest : Library.readAll env next reads with
      | error halt => simp [hrest] at hall
      | ok result =>
        obtain ⟨after', events2⟩ := result
        simp only [hrest, Except.ok.injEq, Prod.mk.injEq] at hall
        obtain ⟨rfl, rfl⟩ := hall
        have hfirst := hI.readLoop connection reads.flatten hq hr (by simpa using h) hloop
        rcases hfirst with ⟨handler, reply, uiData, others, hd, hbad⟩ | ⟨hd, hclosed | hopen⟩
        · exact .inl ⟨handler, reply, uiData, _, by rw [deliveries_append, hd]; rfl, hbad⟩
        · rw [readAll_closed env hclosed] at hrest
          simp only [Except.ok.injEq, Prod.mk.injEq] at hrest
          obtain ⟨rfl, rfl⟩ := hrest
          exact .inr ⟨by simp [hd], .inl hclosed⟩
        · obtain ⟨hhandlers, hfd', hr', hnext⟩ := hopen
          have hlast := ih (by rwa [hhandlers]) hr' (fun d hd => hreads d (by simp [hd])) hnext
            hrest
          simpa [After, hd, hhandlers, hfd'] using hlast

end Skims

/-! ## Line ends -/

/-- How many line ends of a reply were read to reach a state, header lines not counted. -/
def lineEnds : HAMParserState → ℕ
  | .expectingNewline1 | .headerLineStart | .headerLws | .headerName
  | .spaceBeforeHeaderValue | .headerValue | .expectingNewline2 => 1
  | .expectingNewline3 | .contentStart | .content => 2
  | .expectingNewline4 => 3
  | _ => 0

/-- The line ends a finished reply needs. -/
def neededLineEnds (reply : HAMReply) : ℕ :=
  (if declaresContent reply then 3 else 2) + reply.headers.length

/-- A consumed byte that is no carriage return reaches no further line end, and a carriage return
at most one. -/
theorem lineEnds_consume {p q : HAMParser} {r s : HAMReply} {c : Byte}
    (hr : r.finished = false) (h : hamParserConsume declared p r c = .ok (q, s)) :
    if s.finished then neededLineEnds s ≤ lineEnds p.state + r.headers.length ∧ c ≠ cr
    else lineEnds q.state + s.headers.length ≤
      lineEnds p.state + r.headers.length + if c = cr then 1 else 0 := by
  have hlf : ch '\n' ≠ cr := by decide
  have hcr : ch '\r' = cr := rfl
  unfold hamParserConsume at h
  cases hp : p.state <;> simp only [hp, consumeIf, hcr] at h <;> split_ifs at h
  all_goals first
    | cases h
      simp_all [lineEnds, neededLineEnds, declaresContent, hamReplyGetHeader]
    | cases terminate_ok h
      simp_all [lineEnds, hamReplyAddHeader]
    | obtain ⟨hq, hh, hf⟩ := store_ok h
      simp_all [lineEnds]
  all_goals first
    | omega
    | split_ifs <;> omega

/-! ## A reply without its first byte -/

/-- What is left of a reply behind a lost first byte. Either the parser still skips the rest of
the status line, or too few line ends remain for a reply with all its headers. -/
def Beheaded (tail : Bytes) (p : HAMParser) (r : HAMReply) (rest : Bytes) : Prop :=
  r.finished = false ∧
    ((∃ w, w ≠ [] ∧ rest = w ++ tail ∧ ch 'H' ∉ w ∧ p.state = .httpVersionH ∧ r.headers = []) ∨
      lineEnds p.state + r.headers.length + rest.count cr ≤ tail.count cr)

theorem beheaded_of_line {w tail : Bytes} (hw : ch 'H' ∉ w) {p : HAMParser} {r : HAMReply}
    (hp : p.state = .httpVersionH) (hh : r.headers = []) (hr : r.finished = false) :
    Beheaded tail p r (w ++ tail) := by
  refine ⟨hr, ?_⟩
  by_cases h : w = []
  · exact .inr (by simp [h, hp, hh, lineEnds])
  · exact .inl ⟨w, h, rfl, hw, hp, hh⟩

theorem consume_httpVersionH {p q : HAMParser} {r s : HAMReply} {c : Byte}
    (hp : p.state = .httpVersionH) (hc : c ≠ ch 'H')
    (h : hamParserConsume declared p r c = .ok (q, s)) : q = p ∧ s = r := by
  simp only [hamParserConsume, hp, hc, if_false, consumeIf] at h
  split_ifs at h
  cases h
  exact ⟨rfl, rfl⟩

theorem skims_beheaded (tail : Bytes) :
    Skims (Beheaded tail) (fun r => neededLineEnds r ≤ tail.count cr) where
  accept := by
    rintro p r c rest q s ⟨hr, hrest⟩ h hs
    rcases hrest with ⟨w, hne, hw, hH, hp, hh⟩ | hcount
    · cases w with
      | nil => exact absurd rfl hne
      | cons d w =>
        obtain ⟨rfl, rfl⟩ := List.cons.inj hw
        simp only [List.mem_cons, not_or] at hH
        obtain ⟨rfl, rfl⟩ := consume_httpVersionH hp (Ne.symm hH.1) h
        exact beheaded_of_line hH.2 hp hh hr
    · have hle := lineEnds_consume hr h
      simp only [hs, Bool.false_eq_true, if_false] at hle
      refine ⟨hs, .inr ?_⟩
      rw [List.count_cons] at hcount
      simp only [beq_iff_eq] at hcount
      omega
  finish := by
    rintro p r c rest q s ⟨hr, hrest⟩ h hs
    rcases hrest with ⟨w, hne, hw, hH, hp, hh⟩ | hcount
    · cases w with
      | nil => exact absurd rfl hne
      | cons d w =>
        obtain ⟨rfl, rfl⟩ := List.cons.inj hw
        simp only [List.mem_cons, not_or] at hH
        obtain ⟨rfl, rfl⟩ := consume_httpVersionH hp (Ne.symm hH.1) h
        simp [hr] at hs
    · have hle := lineEnds_consume hr h
      simp only [hs, if_true] at hle
      rw [List.count_cons] at hcount
      omega
  reset := by
    rintro p r rest ⟨hr, hrest⟩
    refine ⟨hr, ?_⟩
    rcases hrest with ⟨w, hne, hw, hH, -, hh⟩ | hcount
    · exact .inl ⟨w, hne, hw, hH, rfl, hh⟩
    · have h0 : lineEnds (hamParserReset p).state = 0 := rfl
      exact .inr (by omega)
  skip := by
    rintro p r c rest ⟨hr, hrest⟩
    rcases hrest with ⟨w, hne, hw, hH, hp, hh⟩ | hcount
    · cases w with
      | nil => exact absurd rfl hne
      | cons d w =>
        obtain ⟨rfl, rfl⟩ := List.cons.inj hw
        exact beheaded_of_line (fun h => hH (List.mem_cons_of_mem _ h)) hp hh hr
    · refine ⟨hr, .inr ?_⟩
      rw [List.count_cons] at hcount
      omega

/-! ## Printed replies -/

/-- What a reply prints behind its status line. -/
def afterStatusLine (reply : Reply) : Bytes :=
  reply.sentHeaders.flatMap headerLine ++ crlf ++
    if reply.content = [] then [] else reply.content.filter (· ≠ cr) ++ crlf

theorem headerLine_count {h : Header} (hh : h.Clean) : (headerLine h).count cr = 1 := by
  have hn : h.name.count cr = 0 :=
    List.count_eq_zero.mpr fun hc => absurd (hh.name_token _ hc) (by decide)
  have hv : h.value.count cr = 0 :=
    List.count_eq_zero.mpr fun hc => absurd (hh.value_clean _ hc) (by decide)
  have hsep : (bytes ": ").count cr = 0 := by decide
  have hend : crlf.count cr = 1 := by decide
  simp [headerLine, List.count_append, hn, hv, hsep, hend]

theorem headerLines_count {hs : List Header} (hhs : ∀ h ∈ hs, h.Clean) :
    (hs.flatMap headerLine).count cr = hs.length := by
  induction hs with
  | nil => rfl
  | cons h hs ih =>
    rw [List.flatMap_cons, List.count_append, headerLine_count (hhs h (by simp)),
      ih fun k hk => hhs k (by simp [hk]), List.length_cons, Nat.add_comm]

theorem afterStatusLine_count {reply : Reply} (hhs : ∀ h ∈ reply.sentHeaders, h.Clean) :
    (afterStatusLine reply).count cr =
      reply.sentHeaders.length + 1 + if reply.content = [] then 0 else 1 := by
  have hend : crlf.count cr = 1 := by decide
  have hbody : (reply.content.filter (· ≠ cr)).count cr = 0 :=
    List.count_eq_zero.mpr (by simp)
  rw [afterStatusLine, List.count_append, List.count_append, headerLines_count hhs, hend]
  split_ifs
  · rfl
  · rw [List.count_append, hbody, hend]

theorem statusLine_head (status : Status) :
    ∃ w, status.line = ch 'H' :: w ∧ ch 'H' ∉ w := by
  cases status <;> exact ⟨_, rfl, by decide⟩

/-- Too few line ends for a reply with the headers of the text. -/
theorem not_sameReply_of_needed {reply : Reply} (hhs : ∀ h ∈ reply.sentHeaders, h.Clean)
    {r whole : HAMReply} (hwhole : whole.headers = reply.sentHeaders)
    (h : neededLineEnds r ≤ (afterStatusLine reply).count cr) : ¬ SameReply r whole := by
  rintro ⟨-, hheaders, -⟩
  have hr : r.headers = reply.sentHeaders := hheaders.trans hwhole
  have hdecl := declaresContent_sent reply r hr
  rw [afterStatusLine_count hhs, neededLineEnds, hr] at h
  by_cases hc : reply.content = []
  · simp only [hc, if_true] at h
    split_ifs at h <;> omega
  · simp only [hdecl.mpr hc, hc, if_true, if_false] at h
    omega

/-- The single parse of a printed reply, when it finishes, ends with its last byte. -/
theorem parse_whole {reply : Reply} (h : WellFormed reply) {p q : HAMParser} (hp : p.Idle)
    {whole : HAMReply} {n : ℕ} (hparse : hamParserParse p {} reply.toString.1 = some (n, q, whole))
    (hw : whole.finished = true) :
    (decoder declared).parse (p, {}) reply.toString.1 = .done (q, whole) [] ∧
      whole.headers = reply.sentHeaders := by
  obtain ⟨rest, hreal⟩ := parse_of_finished rfl hparse hw
  have hfree := (decoder_guards declared).parse (p, {}) reply.toString.1
  rw [hreal] at hfree
  replace hfree := hfree.resolve_right (by simp)
  by_cases hcontent : reply.content = [] ∨ ∃ c ∈ reply.content, c ≠ cr
  · obtain ⟨q', -, hdone⟩ := parse_toString h hcontent (roomFor_free reply) hp
    rw [hdone, Outcome.done.injEq, Prod.mk.injEq] at hfree
    obtain ⟨⟨-, rfl⟩, rfl⟩ := hfree
    exact ⟨hreal, rfl⟩
  · obtain ⟨hne, hcr⟩ := not_or.mp hcontent
    have hnil : reply.content.filter (· ≠ cr) = [] :=
      List.filter_eq_nil_iff.mpr fun c hc => by simpa using fun h0 => hcr ⟨c, hc, h0⟩
    obtain ⟨t, hmore⟩ := parse_strippedContent h hne hnil (roomFor_free reply) hp
    simp [hmore] at hfree

/-! ## No reply survives being cut -/

/-- A read of two bytes or more that leaves the parser inside a reply closes the connection. -/
theorem readData_of_more (env : Environment) {connection : HAMConnection}
    (hfd : connection.fd ≠ -1) {data : Bytes} (hlen : 2 ≤ data.length) (hmax : data.length < 65535)
    {p : HAMParser} {r : HAMReply} (hr : r.finished = false)
    (hmore : (decoder declared).parse (connection.parser, connection.reply) data = .more (p, r)) :
    ∃ after events, hamConnectionReadData env connection (some data) = .ok (after, events) ∧
      after.fd = -1 ∧ deliveries events = [] := by
  let next : HAMConnection := { connection with parser := p, reply := r }
  have hfirst : hamParserParse connection.parser connection.reply (data.drop 0) =
      some (data.length, p, r) := by
    simp [hamParserParse_eq, hmore]
  have hsecond : hamParserParse p r (data.drop (0 + data.length)) = some (0, p, r) := by
    simp [hamParserParse, parseFrom]
  obtain ⟨fuel, hfuel⟩ : ∃ fuel, data.length + 1 = fuel + 2 := ⟨data.length - 1, by omega⟩
  refine ⟨(hamConnectionDisconnect next).1,
    .signal .disconnected (bytes "Server sent mallformed data") ::
      (hamConnectionDisconnect next).2, ?_, hamConnectionDisconnect_fd next,
    deliveries_disconnect next⟩
  have hne : data ≠ [] := by
    rintro rfl
    simp at hlen
  have h0 : ¬ 0 = data.length - 1 := by omega
  have h1 : ¬ data.length = 0 := by omega
  have h2 : ¬ 0 + data.length = data.length - 1 := by omega
  rw [hamConnectionReadData_some hfd hne hmax, hfuel, readLoop, if_neg h0, hfirst]
  simp only [h1, if_false, handleParsed, hr, Bool.false_eq_true]
  rw [readLoop, if_neg h2, hsecond]
  simp [next]

/-- A first read of two bytes or more closes the connection before anything is delivered. -/
theorem deliveries_of_long {env : Environment} {connection after : HAMConnection}
    (hw : Waiting connection) {text first : Bytes} {reads : List Bytes} {events : List Event}
    {t : HAMParser × HAMReply}
    (hdone : (decoder declared).parse (connection.parser, {}) text = .done t [])
    (htext : (first :: reads).flatten = text) (hrest : reads.flatten ≠ [])
    (hlen : 2 ≤ first.length) (hmax : first.length < 65535)
    (hall : readAll env connection (first :: reads) = .ok (after, events)) :
    deliveries events = [] := by
  rw [← htext, List.flatten_cons] at hdone
  obtain ⟨u, hmore, -⟩ := (decoder declared).more_of_done_append hdone
    (List.length_pos_of_ne_nil hrest)
  rw [← hw.fresh] at hmore
  have hunfinished : u.2.finished = false :=
    (decoder declared).more_unfinished (by simp [decoder, hw.fresh]) hmore
  obtain ⟨closed, events1, hread, hfd, hd1⟩ :=
    readData_of_more env hw.connected hlen hmax hunfinished hmore
  simp only [readAll, hread, readAll_closed env hfd, Except.ok.injEq, Prod.mk.injEq] at hall
  obtain ⟨-, rfl⟩ := hall
  simp [hd1]

/-- Behind a first read of one byte, which is lost, no reply of the text is put together again. -/
theorem deliveries_of_byte {env : Environment} {connection after : HAMConnection}
    (hw : Waiting connection) {reply : Reply} {c : Byte} {reads : List Bytes}
    {events : List Event} (hreads : ∀ data ∈ reads, data ≠ [] ∧ data.length < 65535)
    (htext : ([c] :: reads).flatten = reply.toString.1)
    (hall : readAll env connection ([c] :: reads) = .ok (after, events)) :
    deliveries events = [] ∨ ∃ handler r uiData others,
      deliveries events = (handler, r, uiData) :: others ∧
        neededLineEnds r ≤ (afterStatusLine reply).count cr := by
  have hread : hamConnectionReadData env connection (some [c]) = .ok (connection, []) := by
    rw [hamConnectionReadData_some hw.connected (by simp) (by simp)]
    simp [readLoop]
  obtain ⟨w, hline, hH⟩ := statusLine_head reply.status
  have hrest : reads.flatten = w ++ afterStatusLine reply := by
    rw [Reply.toString_text, hline] at htext
    simpa [afterStatusLine] using (List.cons.inj htext).2
  have hstart : Beheaded (afterStatusLine reply) connection.parser connection.reply
      reads.flatten := by
    rw [hrest]
    exact beheaded_of_line hH hw.idle.state_eq (by simp [hw.fresh]) (by simp [hw.fresh])
  rw [readAll, hread] at hall
  cases hall' : readAll env connection reads with
  | error halt => simp [hall'] at hall
  | ok result =>
    obtain ⟨after', events'⟩ := result
    simp only [hall', Except.ok.injEq, Prod.mk.injEq, List.nil_append] at hall
    obtain ⟨rfl, rfl⟩ := hall
    have hafter := (skims_beheaded (afterStatusLine reply)).readAll hw.queued
      (by simp [hw.fresh]) hreads hstart hall'
    rcases hafter with hbad | ⟨hd, -⟩
    · exact .inr hbad
    · exact .inl hd

/-- No reply that is cut into two or more reads is delivered whole, wherever the cuts are. -/
theorem not_deliversWhole (env : Environment) (connection : HAMConnection) (reply : Reply)
    (reads : List Bytes) (hw : Waiting connection) (h : WellFormed reply)
    (hcut : 2 ≤ reads.length) (hreads : ∀ data ∈ reads, data ≠ [] ∧ data.length < 65535)
    (htext : reads.flatten = reply.toString.1) :
    ¬ DeliversWhole env connection reply.toString.1 reads := by
  rintro ⟨n, q, whole, hparse, hfin, after, events, hall, -, tuple, -, handler, -, r, hd, hsame⟩
  rw [hw.fresh] at hparse
  obtain ⟨hdone, hheaders⟩ := parse_whole h hw.idle hparse hfin
  obtain ⟨first, second, others, rfl⟩ : ∃ first second others,
      reads = first :: second :: others := by
    match reads, hcut with
    | first :: second :: others, _ => exact ⟨first, second, others, rfl⟩
  obtain ⟨hne, hmax⟩ := hreads first (by simp)
  by_cases hlen : 2 ≤ first.length
  · have hrest : (second :: others).flatten ≠ [] := by simp [(hreads second (by simp)).1]
    have hnone := deliveries_of_long hw hdone htext hrest hlen hmax hall
    simp [hd] at hnone
  · obtain ⟨c, rfl⟩ : ∃ c, first = [c] := by
      have := List.length_pos_of_ne_nil hne
      exact List.length_eq_one_iff.mp (by omega)
    rcases deliveries_of_byte hw (fun d hd => hreads d (by simp [hd])) htext hall with
      hnone | ⟨handler', r', uiData', rest, hd', hneeded⟩
    · simp [hd] at hnone
    · rw [hd, List.cons.injEq, Prod.mk.injEq, Prod.mk.injEq] at hd'
      obtain ⟨⟨-, rfl, -⟩, -⟩ := hd'
      exact not_sameReply_of_needed h.sentHeaders hheaders hneeded hsame

/-- A connection that waits for one reply. -/
def sampleConnection : HAMConnection where
  fd := 5
  inputHandle := some 1
  handlers := [⟨some (.client 0), 0⟩]

/-- Handlers that do nothing with the connection. -/
def quiet : Environment := fun _ _ _ => []

/-- The text of the sample reply, cut behind its status line. -/
def sampleReads : List Bytes :=
  [sampleReply.toString.1.take 26, sampleReply.toString.1.drop 26]

theorem sampleConnection_waiting : Waiting sampleConnection :=
  ⟨by decide, ⟨rfl, rfl⟩, rfl, _, _, _, rfl⟩

theorem not_deliversWhole_sampleReads :
    ¬ DeliversWhole quiet sampleConnection sampleReply.toString.1 sampleReads :=
  not_deliversWhole quiet sampleConnection sampleReply sampleReads sampleConnection_waiting
    (by decide) (by decide) (by decide) (by decide)

/-- The first read already closes the connection, and the handler is never called. -/
theorem readAll_sampleReads :
    ¬ ∀ env connection reply reads, Waiting connection → WellFormed reply → 2 ≤ reads.length →
      (∀ data ∈ reads, data ≠ [] ∧ data.length < 65535) → reads.flatten = reply.toString.1 →
      DeliversWhole env connection reply.toString.1 reads := by
  intro h
  obtain ⟨-, -, -, -, -, after, events, hall, -, tuple, -, handler, -, r, hd, -⟩ :=
    h quiet sampleConnection sampleReply sampleReads sampleConnection_waiting (by decide)
      (by decide) (by decide) (by decide)
  have hnone : (readAll quiet sampleConnection sampleReads).toOption.map
      (fun result => deliveries result.2) = some [] := by decide
  simp [hall, Except.toOption, hd] at hnone

end Hamlog.Wire
