import Hamlog.Library.ReadLoop

/-! # Data that the parser rejects

A rejected byte resets the parser, but not the reply under construction, and
the number of bytes in front of it is returned as if nothing had happened. The
loop sees the error only if the byte is rejected once more, as the first byte
of the next parse, and if there is a next turn.
-/
namespace Hamlog.Library
open Foundation Wire

/-- The replies that were finished in front of a place of the read, delivered one after the
other. -/
def deliverAll (env : Environment) (connection : HAMConnection) :
    List (HAMParser × HAMReply) → HAMConnection × List Event
  | [] => (connection, [])
  | (parser, reply) :: replies =>
    let first := deliver env { connection with parser, reply }
    let others := deliverAll env first.1 replies
    (others.1, first.2 ++ others.2)

/-- The loop is at the end reported as a disconnect, with no reply passed to a handler. -/
def Closes (result : Except Halt (HAMConnection × ℕ × List Event)) : Prop :=
  ∃ after parsedTotal events, result = .ok (after, parsedTotal, events) ∧
    deliveries events = [] ∧
    .signal .disconnected (bytes "Server sent mallformed data") ∈ events ∧ after.fd = -1

/-- The unread bytes of a loop with the given queue that end it by a disconnect, without a reply
for a handler: they run out inside a reply, their first byte is refused, or they are rejected at a
later byte, which is not the last of the read, and what follows from that byte on is of the same
kind. A finished reply is no harm as long as no handler waits for it. -/
inductive Dies : List HandlerTuple → HAMParser → HAMReply → Bytes → Prop
  | runsOut {queue p r data s} : data.length ≠ 1 →
      (decoder declared).parse (p, r) data = .more s → Dies queue p r data
  | refused {queue p r data s} : data.length ≠ 1 →
      (decoder declared).parse (p, r) data = .fail s .rejected data → Dies queue p r data
  | restarted {queue p r data q s rest} : data.length ≠ 1 → rest.length < data.length →
      (decoder declared).parse (p, r) data = .fail (q, s) .rejected rest →
      Dies queue (hamParserReset q) s rest → Dies queue p r data
  | dropped {queue p r data q s rest} : data.length ≠ 1 →
      (∀ tuple ∈ queue.head?, tuple.handler = none) →
      (decoder declared).parse (p, r) data = .done (q, s) rest →
      Dies queue.tail q {} (ch '\n' :: rest) → Dies queue p r data

theorem closes_refuse (connection : HAMConnection) (parsedTotal : ℕ) :
    Closes (.ok (refuse connection parsedTotal)) := by
  refine ⟨_, _, _, rfl, ?_, List.mem_cons_self, hamConnectionDisconnect_fd connection⟩
  exact deliveries_disconnect connection

theorem not_closes_end (connection : HAMConnection) (parsedTotal : ℕ) :
    ¬Closes (.ok (connection, parsedTotal, [])) := by
  rintro ⟨after, n, events, hresult, -, hsignal, -⟩
  cases hresult
  exact absurd hsignal List.not_mem_nil

/-- Events in front that report nothing do not change how a loop ends. -/
theorem closes_prepend {first : List Event} (hnone : deliveries first = [])
    (hsignal : .signal .disconnected (bytes "Server sent mallformed data") ∉ first)
    (result : Except Halt (HAMConnection × ℕ × List Event)) :
    Closes (prepend first result) ↔ Closes result := by
  cases result with
  | error halt => simp [Closes, prepend]
  | ok result =>
    obtain ⟨after, n, events⟩ := result
    simp [Closes, prepend, deliveries_append, hnone, List.mem_append, hsignal]

theorem not_closes_handled {first : List Event} (h : deliveries first ≠ [])
    (result : Except Halt (HAMConnection × ℕ × List Event)) : ¬Closes (prepend first result) := by
  rintro ⟨after, n, events, hresult, hnone, -⟩
  cases result with
  | error halt => cases hresult
  | ok result =>
    cases hresult
    rw [deliveries_append, List.append_eq_nil_iff] at hnone
    exact h hnone.1

/-- A finished reply for which no handler waits leaves the queue one shorter. -/
theorem deliver_dropped (env : Environment) (connection : HAMConnection)
    (h : ∀ tuple ∈ connection.handlers.head?, tuple.handler = none) :
    deliver env connection =
      ({ connection with handlers := connection.handlers.tail, reply := {} },
        [.signal .replyReceived (hamReplyGetDump connection.reply)]) := by
  unfold deliver
  cases hqueue : connection.handlers with
  | nil =>
    obtain ⟨fd, inputHandle, reply, parser, handlers⟩ := connection
    simp only at hqueue
    simp
  | cons tuple handlers =>
    have hnull : tuple.handler = none := h tuple (by simp [hqueue])
    simp [hnull]

theorem deliveries_deliver (env : Environment) (connection : HAMConnection)
    (h : ¬∀ tuple ∈ connection.handlers.head?, tuple.handler = none) :
    deliveries (deliver env connection).2 ≠ [] := by
  unfold deliver
  cases hqueue : connection.handlers with
  | nil => simp [hqueue] at h
  | cons tuple handlers =>
    cases hhandler : tuple.handler with
    | none => simp [hqueue, hhandler] at h
    | some handler => simp [hhandler, deliveries]

theorem dies_iff (queue : List HandlerTuple) (p : HAMParser) (r : HAMReply) (data : Bytes) :
    Dies queue p r data ↔ data.length ≠ 1 ∧
      match (decoder declared).parse (p, r) data with
      | .more _ => True
      | .done s rest =>
        (∀ tuple ∈ queue.head?, tuple.handler = none) ∧ Dies queue.tail s.1 {} (ch '\n' :: rest)
      | .fail _ .fault _ => False
      | .fail s .rejected rest =>
        rest = data ∨ rest.length < data.length ∧ Dies queue (hamParserReset s.1) s.2 rest := by
  constructor
  · intro h
    cases h with
    | runsOut hone hparse => exact ⟨hone, by rw [hparse]; trivial⟩
    | refused hone hparse => exact ⟨hone, by rw [hparse]; exact .inl rfl⟩
    | restarted hone hlen hparse hdies => exact ⟨hone, by rw [hparse]; exact .inr ⟨hlen, hdies⟩⟩
    | dropped hone hqueue hparse hdies => exact ⟨hone, by rw [hparse]; exact ⟨hqueue, hdies⟩⟩
  · rintro ⟨hone, h⟩
    cases hparse : (decoder declared).parse (p, r) data with
    | more s => exact .runsOut hone hparse
    | done s rest =>
      rw [hparse] at h
      exact .dropped hone h.1 hparse h.2
    | fail s stop rest =>
      rw [hparse] at h
      cases stop with
      | fault => exact h.elim
      | rejected =>
        rcases h with rfl | ⟨hlen, hdies⟩
        · exact .refused hone hparse
        · exact .restarted hone hlen hparse hdies

/-- How the loop ends from a place where the parser is idle, by the bytes that are still unread. -/
theorem closes_iff_dies (env : Environment) {fuel : ℕ} {connection : HAMConnection} {data : Bytes}
    {parsedTotal : ℕ} (hfuel : data.length - parsedTotal < fuel) (hlt : parsedTotal < data.length)
    (hidle : connection.parser.Idle) (hr : connection.reply.finished = false) :
    Closes (readLoop env fuel connection data parsedTotal) ↔
      Dies connection.handlers connection.parser connection.reply (data.drop parsedTotal) := by
  induction fuel generalizing connection parsedTotal with
  | zero => omega
  | succ fuel ih =>
    have hlen : (data.drop parsedTotal).length = data.length - parsedTotal := List.length_drop
    by_cases hend : parsedTotal = data.length - 1
    · rw [readLoop_end env fuel connection hend, dies_iff]
      exact iff_of_false (not_closes_end _ _) fun h => absurd h.1 (by omega)
    rw [dies_iff, and_iff_right (by omega)]
    cases hparse : (decoder declared).parse (connection.parser, connection.reply)
        (data.drop parsedTotal) with
    | more s =>
      obtain ⟨fuel, rfl⟩ : ∃ n, fuel = n + 1 := ⟨fuel - 1, by omega⟩
      have hs := (decoder declared).more_unfinished (s := (connection.parser, connection.reply))
        hr hparse
      rw [readLoop_more env fuel connection hend hlt hs hparse]
      exact iff_of_true (closes_refuse _ _) trivial
    | done s rest =>
      obtain ⟨q, s⟩ := s
      obtain ⟨hs, hq, front, hne, hsplit⟩ := parse_done_idle hidle hr hparse
      have hpos := List.length_pos_of_ne_nil hne
      have hcount := congrArg List.length hsplit
      rw [List.length_append, List.length_cons] at hcount
      have hcut : data.length - (rest.length + 1) = parsedTotal + front.length := by omega
      have hnext : data.drop (data.length - (rest.length + 1)) = ch '\n' :: rest := by
        rw [hcut, ← List.drop_drop, hsplit, List.drop_left]
      rw [readLoop_done env fuel connection hend hs (by omega) hparse]
      by_cases hqueue : ∀ tuple ∈ connection.handlers.head?, tuple.handler = none
      · have hdeliver := deliver_dropped env { connection with parser := q, reply := s } hqueue
        simp only [hdeliver]
        rw [and_iff_right hqueue, closes_prepend rfl (by simp), ih (by omega) (by omega) hq rfl,
          hnext]
      · have hhandled := deliveries_deliver env { connection with parser := q, reply := s } hqueue
        exact iff_of_false (not_closes_handled hhandled _) fun h => hqueue h.1
    | fail s stop rest =>
      obtain ⟨q, s⟩ := s
      have hs : s.finished = false :=
        (decoder declared).fail_unfinished (s := (connection.parser, connection.reply)) hr hparse
      obtain ⟨front, a, as, hrest, hsplit, -, -⟩ := (decoder declared).fail_last hparse
      cases stop with
      | fault =>
        rw [readLoop_fault env fuel connection hend hparse]
        exact iff_of_false (fun ⟨_, _, _, hresult, _⟩ => nomatch hresult) id
      | rejected =>
        cases front with
        | nil =>
          rw [List.nil_append] at hsplit
          rw [← hsplit] at hparse
          rw [readLoop_refused env fuel connection hend hparse]
          exact iff_of_true (closes_refuse _ _) (.inl hsplit.symm)
        | cons b front =>
          have hcount := congrArg List.length hsplit
          rw [List.length_append, List.length_cons] at hcount
          have hpos : 0 < rest.length := by simp [hrest]
          have hcut : data.length - rest.length = parsedTotal + (b :: front).length := by
            rw [List.length_cons]
            omega
          have hnext : data.drop (data.length - rest.length) = rest := by
            rw [hcut, ← List.drop_drop, hsplit, List.drop_left]
          have hne : rest ≠ data.drop parsedTotal := fun heq => by
            rw [← heq] at hcount
            omega
          rw [readLoop_rejected env fuel connection hend hs (by omega) hparse,
            ih (by omega) (by omega) (hamParserReset_idle q) hs, hnext]
          exact ((or_iff_right hne).trans (and_iff_right (by omega))).symm

/-! ## Up to the rejected byte -/

/-- The loop up to a rejected byte that is not the first byte of its parse: the replies in front of
it are delivered, and the next turn starts on it with a reset parser and the unfinished reply. -/
theorem readLoop_front (env : Environment) {data lead front rest : Bytes} {b : Byte}
    {msgs : List (HAMParser × HAMReply)} {p : HAMParser} {r : HAMReply} (hlead : IsLead lead)
    (hne : lead ++ front ≠ []) {fuel parsedTotal : ℕ} {connection : HAMConnection}
    (hfuel : data.length - parsedTotal < fuel) (hidle : connection.parser.Idle)
    (hr : connection.reply.finished = false)
    (hdata : data.drop parsedTotal = lead ++ front ++ b :: rest)
    (hfeed : (decoder declared).feed (connection.parser, connection.reply) front = (msgs, .ok (p, r)))
    (hreject : hamParserConsume declared p r b = .error .rejected) :
    r.finished = false ∧ ∃ fuel', rest.length + 1 < fuel' ∧
      readLoop env fuel connection data parsedTotal =
        prepend (deliverAll env connection msgs).2
          (readLoop env fuel'
            { (deliverAll env connection msgs).1 with parser := hamParserReset p, reply := r } data
            (data.length - (rest.length + 1))) := by
  obtain ⟨fuel, rfl⟩ := Nat.exists_eq_succ_of_ne_zero (Nat.ne_of_gt (Nat.zero_lt_of_lt hfuel))
  have hcount := congrArg List.length hdata
  simp only [List.length_drop, List.length_append, List.length_cons] at hcount
  have hpos := List.length_pos_of_ne_nil hne
  rw [List.length_append] at hpos
  rw [List.append_assoc] at hdata
  induction msgs generalizing lead front fuel parsedTotal connection with
  | nil =>
    have hskip : (decoder declared).parse (connection.parser, connection.reply) lead = _ :=
      parse_lead hlead hidle hr
    have hfront := (decoder declared).parse_of_feed_nil hfeed
    have hunfinished : r.finished = false :=
      (decoder declared).more_unfinished (s := (connection.parser, connection.reply)) hr hfront
    have hparse : (decoder declared).parse (connection.parser, connection.reply)
        (data.drop parsedTotal) = .fail (p, r) .rejected (b :: rest) := by
      rw [hdata, (decoder declared).parse_append_more hskip,
        (decoder declared).parse_append_more hfront]
      exact (decoder declared).parse_cons_fail hreject
    refine ⟨hunfinished, fuel, by omega, ?_⟩
    rw [readLoop_rejected env fuel connection (by omega) hunfinished (by simp [hdata]; omega) hparse]
    exact (prepend_nil _).symm
  | cons m msgs ih =>
    have hskip : (decoder declared).parse (connection.parser, connection.reply) lead = _ :=
      parse_lead hlead hidle hr
    obtain ⟨q, s⟩ := m
    obtain ⟨behind, hdone, hbehind⟩ := (decoder declared).parse_of_feed_cons hfeed
    obtain ⟨hs, hq, begin, hbegin, rfl⟩ := parse_done_idle hidle hr hdone
    have hparse : (decoder declared).parse (connection.parser, connection.reply)
        (data.drop parsedTotal) = .done (q, s) (behind ++ b :: rest) := by
      rw [hdata, (decoder declared).parse_append_more hskip,
        (decoder declared).parse_append_done hdone]
    have hlast : (behind ++ b :: rest).length = behind.length + (rest.length + 1) := by
      rw [List.length_append, List.length_cons]
    rw [List.length_append, List.length_cons] at hcount
    have hbeginpos := List.length_pos_of_ne_nil hbegin
    have hcut : data.length - ((behind ++ b :: rest).length + 1) =
        parsedTotal + (lead ++ begin).length := by
      rw [hlast, List.length_append]
      omega
    have hnext : data.drop (data.length - ((behind ++ b :: rest).length + 1)) =
        [ch '\n'] ++ (behind ++ b :: rest) := by
      rw [hcut, ← List.drop_drop, hdata, List.append_assoc, ← List.append_assoc lead,
        List.drop_left]
      rfl
    obtain ⟨hparser, hreply⟩ := deliver_keeps env { connection with parser := q, reply := s }
    obtain ⟨fuel, rfl⟩ : ∃ n, fuel = n + 1 := ⟨fuel - 1, by omega⟩
    have hidle' : (deliver env { connection with parser := q, reply := s }).1.parser.Idle := by
      rwa [hparser]
    have hfeed' : (decoder declared).feed
        ((deliver env { connection with parser := q, reply := s }).1.parser,
          (deliver env { connection with parser := q, reply := s }).1.reply) behind =
        (msgs, .ok (p, r)) := by
      rw [hparser, hreply]
      exact hbehind
    obtain ⟨hunfinished, fuel', henough, hloop⟩ := ih (.inr rfl) (by simp) hidle' (by rw [hreply])
      hnext hfeed' fuel (by omega) (by simp; omega) (by simp)
    refine ⟨hunfinished, fuel', henough, ?_⟩
    rw [readLoop_done env (fuel + 1) connection (by omega) hs (by rw [hdata]; simp; omega) hparse]
    simp only
    rw [hloop, prepend_append]
    rfl

/-- The parser of the connection accepts the bytes in front, finishing the replies `msgs` on the
way, and rejects the byte `b`. -/
structure Rejects (connection : HAMConnection) (front : Bytes) (b : Byte)
    (msgs : List (HAMParser × HAMReply)) (p : HAMParser) (r : HAMReply) : Prop where
  accepted : (decoder declared).feed (connection.parser, connection.reply) front =
    (msgs, .ok (p, r))
  rejected : hamParserConsume declared p r b = .error .rejected

/-- A read of which only the replies `msgs` are delivered, and which is then reported as a
disconnect and closes the connection. -/
def Drops (env : Environment) (connection : HAMConnection) (msgs : List (HAMParser × HAMReply))
    (data : Bytes) : Prop :=
  ∃ after later, hamConnectionReadData env connection (some data) =
      .ok (after, (deliverAll env connection msgs).2 ++ later) ∧
    deliveries later = [] ∧
    .signal .disconnected (bytes "Server sent mallformed data") ∈ later ∧ after.fd = -1

theorem drops_of_loop {env : Environment} {connection : HAMConnection} (hfd : connection.fd ≠ -1)
    {msgs : List (HAMParser × HAMReply)} {data : Bytes} (hne : data ≠ [])
    {result : Except Halt (HAMConnection × ℕ × List Event)}
    (hloop : readLoop env (data.length + 1) connection data 0 =
      prepend (deliverAll env connection msgs).2 result) :
    Drops env connection msgs data ↔ data.length < 65535 ∧ Closes result := by
  by_cases hlen : data.length < 65535
  · rw [and_iff_right hlen, Drops, hamConnectionReadData_some hfd hne hlen, hloop]
    cases result with
    | error halt => simp [Closes, prepend]
    | ok result =>
      obtain ⟨after, n, later⟩ := result
      simp [Closes, prepend]
  · refine iff_of_false ?_ fun h => hlen h.1
    rintro ⟨after, later, hread, -⟩
    cases data with
    | nil => exact hne rfl
    | cons b data =>
      rw [List.length_cons] at hlen
      simp [hamConnectionReadData, hfd, hlen] at hread

/-- A rejected byte ends the connection without a further delivery exactly when what is unread from
it on, parsed anew under the reply that was begun, does. -/
theorem drops_iff (env : Environment) {connection : HAMConnection} (hfd : connection.fd ≠ -1)
    (hidle : connection.parser.Idle) (hr : connection.reply.finished = false) {front rest : Bytes}
    {b : Byte} {msgs : List (HAMParser × HAMReply)} {p : HAMParser} {r : HAMReply}
    (hrejects : Rejects connection front b msgs p r) (hparsed : (front ++ b :: rest).length ≠ 1) :
    Drops env connection msgs (front ++ b :: rest) ↔
      (front ++ b :: rest).length < 65535 ∧
        Dies (deliverAll env connection msgs).1.handlers (hamParserReset p) r (b :: rest) := by
  have hlen : (front ++ b :: rest).length = front.length + (rest.length + 1) := by simp
  by_cases hfront : front = []
  · subst hfront
    have hstart := hrejects.accepted
    rw [Decoder.feed_nil, Prod.mk.injEq, Except.ok.injEq, Prod.mk.injEq] at hstart
    obtain ⟨rfl, rfl, rfl⟩ := hstart
    rw [drops_of_loop hfd (by simp) (prepend_nil _).symm, hidle.reset]
    exact and_congr_right fun _ => closes_iff_dies env (by omega) (by omega) hidle hr
  · have hfuel : (front ++ b :: rest).length - 0 < (front ++ b :: rest).length + 1 := by omega
    obtain ⟨hunfinished, fuel, henough, hloop⟩ := readLoop_front env (.inl rfl)
      (by rwa [List.nil_append]) hfuel hidle hr rfl hrejects.accepted hrejects.rejected
    have hdrop : (front ++ b :: rest).drop ((front ++ b :: rest).length - (rest.length + 1)) =
        b :: rest := by
      rw [hlen, Nat.add_sub_cancel, List.drop_left]
    rw [drops_of_loop hfd (by simp) hloop,
      closes_iff_dies env (by omega) (by omega) (hamParserReset_idle p) hunfinished, hdrop]

/-- A rejected byte that cannot start a reply and is not the last of the read. -/
theorem dies_of_refused (queue : List HandlerTuple) (p : HAMParser) (r : HAMReply) {b : Byte}
    (hb : b ≠ ch 'H' ∧ b ≠ 10 ∧ b ≠ 13) {rest : Bytes} (hrest : rest ≠ []) :
    Dies queue (hamParserReset p) r (b :: rest) := by
  have hstep : hamParserConsume declared (hamParserReset p) r b = .error .rejected := by
    simp [hamParserConsume, hamParserReset, consumeIf, hb.1, hb.2.1, hb.2.2]
  have hlen : (b :: rest).length ≠ 1 := by simpa using hrest
  have hrefused : (decoder declared).parse (hamParserReset p, r) (b :: rest) =
      .fail (hamParserReset p, r) .rejected (b :: rest) := (decoder declared).parse_cons_fail hstep
  exact .refused hlen hrefused

/-- A connection that waits for one reply. -/
def asking : HAMConnection where
  fd := 4
  inputHandle := some 0
  handlers := [⟨some (.client 0), 5⟩]

/-- Handlers without calls. -/
def passive : Environment := fun _ _ _ => []

theorem drops_parenthesis :
    Drops passive asking [] (bytes "HTTP/1.1 200 OK\r\nX-Call" ++ ch '(' :: bytes "ok\r\n") := by
  have hrejects : Rejects asking (bytes "HTTP/1.1 200 OK\r\nX-Call") (ch '(') []
      { state := .headerName, headerName := bytes "X-Call", ptr := some .headerName }
      { status := 200 } := ⟨rfl, rfl⟩
  exact (drops_iff passive (by decide) ⟨rfl, rfl⟩ rfl hrejects (by decide)).mpr
    ⟨by decide, dies_of_refused _ _ _ (by decide) (by decide)⟩

/-- A header line without a colon, and behind it the reply to the request. -/
def brokenHead : Bytes := bytes "HTTP/1.1 200 OK\r\nX-Call: ok2jrq\r\nbad"

/-- The status of the reply with the header from before the rejected byte. -/
def mixedReply : HAMReply where
  status := 400
  headers := [⟨bytes "X-Call", bytes "ok2jrq"⟩]
  finished := true

theorem not_drops_brokenHead :
    (∃ p r, Rejects asking brokenHead cr [] p r) ∧
      (hamConnectionReadData passive asking
          (some (brokenHead ++ cr :: bytes "\nHTTP/1.0 400 Bad Request\r\n\r\n"))).map
        (fun result => deliveries result.2) = .ok [(.client 0, mixedReply, 5)] ∧
      ¬Drops passive asking []
        (brokenHead ++ cr :: bytes "\nHTTP/1.0 400 Bad Request\r\n\r\n") := by
  have hrejects : Rejects asking brokenHead cr []
      ⟨.headerName, bytes "bad", bytes "ok2jrq", some .headerName⟩
      { status := 200, headers := [⟨bytes "X-Call", bytes "ok2jrq"⟩] } := ⟨rfl, rfl⟩
  have hdelivered : (hamConnectionReadData passive asking
      (some (brokenHead ++ cr :: bytes "\nHTTP/1.0 400 Bad Request\r\n\r\n"))).map
      (fun result => deliveries result.2) = .ok [(.client 0, mixedReply, 5)] := by
    decide +kernel
  refine ⟨⟨_, _, hrejects⟩, hdelivered, ?_⟩
  rintro ⟨after, later, hread, hnone, -⟩
  rw [hread] at hdelivered
  simp [Except.map, deliverAll, hnone] at hdelivered

end Hamlog.Library
