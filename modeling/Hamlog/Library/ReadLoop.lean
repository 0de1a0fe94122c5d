import Hamlog.Library.Connection

/-! # Turns of the read loop

What one turn of the loop of `ham_connection_read_data` does, for each outcome
of the parse: a finished reply is delivered and its last byte met again, data
that run out disconnect in the next turn, and a rejected byte disconnects only
when it is the first byte of its parse.
-/
namespace Hamlog.Library
open Foundation Wire

/-- The result of a loop behind the events of a first turn. -/
def prepend (events : List Event) :
    Except Halt (HAMConnection × ℕ × List Event) → Except Halt (HAMConnection × ℕ × List Event)
  | .error halt => .error halt
  | .ok (connection, parsedTotal, others) => .ok (connection, parsedTotal, events ++ others)

theorem prepend_nil (result : Except Halt (HAMConnection × ℕ × List Event)) :
    prepend [] result = result := by
  cases result <;> rfl

theorem prepend_append (xs ys : List Event)
    (result : Except Halt (HAMConnection × ℕ × List Event)) :
    prepend xs (prepend ys result) = prepend (xs ++ ys) result := by
  cases result with
  | error halt => rfl
  | ok result => simp [prepend]

/-- What the loop does when a parse consumes nothing. -/
def refuse (connection : HAMConnection) (parsedTotal : ℕ) : HAMConnection × ℕ × List Event :=
  let closed := hamConnectionDisconnect connection
  (closed.1, parsedTotal,
    .signal .disconnected (bytes "Server sent mallformed data") :: closed.2)

section Turns
variable (env : Environment) (fuel : ℕ) (connection : HAMConnection) {data : Bytes}
  {parsedTotal : ℕ}

theorem readLoop_end (h : parsedTotal = data.length - 1) :
    readLoop env (fuel + 1) connection data parsedTotal = .ok (connection, parsedTotal, []) := by
  rw [readLoop, if_pos h]

theorem readLoop_turn (h : parsedTotal ≠ data.length - 1) {parsed : ℕ} {parser : HAMParser}
    {reply : HAMReply} (hparse : hamParserParse connection.parser connection.reply
      (data.drop parsedTotal) = some (parsed, parser, reply)) :
    readLoop env (fuel + 1) connection data parsedTotal =
      if parsed = 0 then .ok (refuse { connection with parser, reply } parsedTotal)
      else
        let delivered := handleParsed env { connection with parser, reply }
        prepend delivered.2 (readLoop env fuel delivered.1 data (parsedTotal + parsed)) := by
  rw [readLoop, if_neg h, hparse]
  by_cases hzero : parsed = 0
  · simp only [hzero, if_true]
    rfl
  · simp only [hzero, if_false]
    cases readLoop env fuel _ data (parsedTotal + parsed) <;> rfl

theorem readLoop_fault (h : parsedTotal ≠ data.length - 1) {s : HAMParser × HAMReply}
    {rest : Bytes} (hparse : (decoder declared).parse (connection.parser, connection.reply)
      (data.drop parsedTotal) = .fail s .fault rest) :
    readLoop env (fuel + 1) connection data parsedTotal = .error .outOfBounds := by
  have hnone : hamParserParse connection.parser connection.reply (data.drop parsedTotal) =
      none := by
    rw [hamParserParse_eq, hparse]
  rw [readLoop, if_neg h, hnone]

/-- A finished reply is delivered. -/
theorem readLoop_done (h : parsedTotal ≠ data.length - 1) {q : HAMParser} {s : HAMReply}
    {rest : Bytes} (hfinished : s.finished = true)
    (hlen : rest.length + 1 < (data.drop parsedTotal).length)
    (hparse : (decoder declared).parse (connection.parser, connection.reply)
      (data.drop parsedTotal) = .done (q, s) rest) :
    readLoop env (fuel + 1) connection data parsedTotal =
      let delivered := deliver env { connection with parser := q, reply := s }
      prepend delivered.2
        (readLoop env fuel delivered.1 data (data.length - (rest.length + 1))) := by
  have hsome : hamParserParse connection.parser connection.reply (data.drop parsedTotal) =
      some ((data.drop parsedTotal).length - rest.length - 1, q, s) := by
    rw [hamParserParse_eq, hparse]
  rw [List.length_drop] at hsome hlen
  rw [readLoop_turn env fuel connection h hsome, if_neg (by omega)]
  simp only [handleParsed, hfinished, if_true]
  rw [show parsedTotal + (data.length - parsedTotal - rest.length - 1) =
    data.length - (rest.length + 1) by omega]

/-- A rejection behind the first byte of its parse goes unnoticed: the next turn starts on the
rejected byte. -/
theorem readLoop_rejected (h : parsedTotal ≠ data.length - 1) {q : HAMParser} {s : HAMReply}
    {rest : Bytes} (hfinished : s.finished = false)
    (hlen : rest.length < (data.drop parsedTotal).length)
    (hparse : (decoder declared).parse (connection.parser, connection.reply)
      (data.drop parsedTotal) = .fail (q, s) .rejected rest) :
    readLoop env (fuel + 1) connection data parsedTotal =
      readLoop env fuel { connection with parser := hamParserReset q, reply := s } data
        (data.length - rest.length) := by
  have hsome : hamParserParse connection.parser connection.reply (data.drop parsedTotal) =
      some ((data.drop parsedTotal).length - rest.length, hamParserReset q, s) := by
    rw [hamParserParse_eq, hparse]
  rw [List.length_drop] at hsome hlen
  rw [readLoop_turn env fuel connection h hsome, if_neg (by omega)]
  simp only [handleParsed, hfinished, Bool.false_eq_true, if_false]
  rw [prepend_nil, show parsedTotal + (data.length - parsedTotal - rest.length) =
    data.length - rest.length by omega]

/-- A rejection of the first byte of its parse disconnects. -/
theorem readLoop_refused (h : parsedTotal ≠ data.length - 1) {q : HAMParser} {s : HAMReply}
    (hparse : (decoder declared).parse (connection.parser, connection.reply)
      (data.drop parsedTotal) = .fail (q, s) .rejected (data.drop parsedTotal)) :
    readLoop env (fuel + 1) connection data parsedTotal =
      .ok (refuse { connection with parser := hamParserReset q, reply := s } parsedTotal) := by
  have hsome : hamParserParse connection.parser connection.reply (data.drop parsedTotal) =
      some (0, hamParserReset q, s) := by
    rw [hamParserParse_eq, hparse]
    simp only [Nat.sub_self]
  rw [readLoop_turn env fuel connection h hsome, if_pos rfl]

/-- Data that run out inside a reply make the next turn parse nothing, which disconnects. -/
theorem readLoop_more (h : parsedTotal ≠ data.length - 1) (hlt : parsedTotal < data.length)
    {q : HAMParser} {s : HAMReply} (hfinished : s.finished = false)
    (hparse : (decoder declared).parse (connection.parser, connection.reply)
      (data.drop parsedTotal) = .more (q, s)) :
    readLoop env (fuel + 2) connection data parsedTotal =
      .ok (refuse { connection with parser := q, reply := s } data.length) := by
  have hsome : hamParserParse connection.parser connection.reply (data.drop parsedTotal) =
      some ((data.drop parsedTotal).length, q, s) := by
    rw [hamParserParse_eq, hparse]
  have hnone : hamParserParse q s (data.drop data.length) = some (0, q, s) := by
    rw [List.drop_length]
    rfl
  rw [List.length_drop] at hsome
  rw [readLoop_turn env (fuel + 1) connection h hsome, if_neg (by omega)]
  simp only [handleParsed, hfinished, Bool.false_eq_true, if_false]
  rw [prepend_nil, Nat.add_sub_cancel' hlt.le,
    readLoop_turn env fuel { connection with parser := q, reply := s } (by omega) hnone,
    if_pos rfl]

end Turns

/-- What a read can be: of a closed connection, the end of the stream, or the loop over its
bytes. -/
theorem readData_cases {env : Environment} {connection after : HAMConnection}
    {read : Option Bytes} {events : List Event}
    (h : hamConnectionReadData env connection read = .ok (after, events)) :
    (connection.fd = -1 ∧ after = connection ∧ events = []) ∨
      (connection.fd ≠ -1 ∧ read = some [] ∧ after = (hamConnectionDisconnect connection).1 ∧
        events = .signal .disconnected (bytes "Server closed the connection") ::
          (hamConnectionDisconnect connection).2) ∨
      (connection.fd ≠ -1 ∧ ∃ data parsedTotal, read = some data ∧ data ≠ [] ∧
        data.length < 65535 ∧
        readLoop env (data.length + 1) connection data 0 = .ok (after, parsedTotal, events)) := by
  by_cases hfd : connection.fd = -1
  · simp only [hamConnectionReadData, hfd, if_true, Except.ok.injEq, Prod.mk.injEq] at h
    exact .inl ⟨hfd, h.1.symm, h.2.symm⟩
  cases read with
  | none => simp [hamConnectionReadData, hfd] at h
  | some data =>
    by_cases hne : data = []
    · subst hne
      simp only [hamConnectionReadData, hfd, if_false, Except.ok.injEq, Prod.mk.injEq] at h
      exact .inr (.inl ⟨hfd, rfl, h.1.symm, h.2.symm⟩)
    by_cases hlen : data.length < 65535
    · rw [hamConnectionReadData_some hfd hne hlen] at h
      cases hloop : readLoop env (data.length + 1) connection data 0 with
      | error halt => simp [hloop] at h
      | ok result =>
        obtain ⟨final, parsedTotal, others⟩ := result
        rw [hloop] at h
        cases h
        exact .inr (.inr ⟨hfd, data, parsedTotal, rfl, hne, hlen, hloop⟩)
    · obtain ⟨b, data, rfl⟩ := List.exists_cons_of_ne_nil hne
      rw [List.length_cons] at hlen
      simp [hamConnectionReadData, hfd, hlen] at h

/-! ## Between two replies -/

theorem hamConnectionSend_keeps (connection : HAMConnection) (request : HAMRequest)
    (handler : Option Handler) (uiData : ℕ) :
    (hamConnectionSend connection request handler uiData).1.parser = connection.parser ∧
      (hamConnectionSend connection request handler uiData).1.reply = connection.reply := by
  unfold hamConnectionSend
  split_ifs <;> exact ⟨rfl, rfl⟩

/-- The functions of the connection do not touch the parser and the reply under construction. -/
theorem applyCall_keeps (connection : HAMConnection) (call : Call) :
    (applyCall connection call).1.parser = connection.parser ∧
      (applyCall connection call).1.reply = connection.reply := by
  cases call with
  | send request handler uiData => exact hamConnectionSend_keeps connection request handler uiData
  | disconnect =>
    simp only [applyCall, hamConnectionDisconnect]
    split_ifs <;> exact ⟨rfl, rfl⟩
  | connect outcome =>
    simp only [applyCall, hamConnectionConnect]
    split_ifs
    · exact ⟨rfl, rfl⟩
    · cases outcome with
      | connected fd handle => exact hamConnectionSend_keeps _ _ _ _
      | lookupFailed | socketFailed | connectFailed => exact ⟨rfl, rfl⟩

theorem applyCalls_keeps (connection : HAMConnection) (calls : List Call) :
    (applyCalls connection calls).1.parser = connection.parser ∧
      (applyCalls connection calls).1.reply = connection.reply := by
  induction calls generalizing connection with
  | nil => exact ⟨rfl, rfl⟩
  | cons call calls ih =>
    obtain ⟨hparser, hreply⟩ := ih (applyCall connection call).1
    obtain ⟨hparser', hreply'⟩ := applyCall_keeps connection call
    exact ⟨hparser.trans hparser', hreply.trans hreply'⟩

/-- A delivery does not touch the parser and starts a new reply. -/
theorem deliver_keeps (env : Environment) (connection : HAMConnection) :
    (deliver env connection).1.parser = connection.parser ∧
      (deliver env connection).1.reply = {} := by
  unfold deliver
  cases hqueue : connection.handlers with
  | nil => exact ⟨rfl, rfl⟩
  | cons tuple handlers =>
    cases hhandler : tuple.handler with
    | none => simp [hhandler]
    | some handler => simpa [hhandler] using (applyCalls_keeps { connection with handlers } _).1

/-- The last byte of a finished reply is a line feed, and the parser is idle behind it. -/
theorem parse_done_lineFeed {p q : HAMParser} {r s : HAMReply} {data rest : Bytes}
    (hr : r.finished = false) (h : (decoder declared).parse (p, r) data = .done (q, s) rest) :
    s.finished = true ∧ q.Idle ∧ ∃ front, data = front ++ ch '\n' :: rest ∧
      (p.state = .httpVersionH → front ≠ []) := by
  obtain ⟨hs, front, c, u, hdata, hfront, hu, hstep⟩ :=
    (decoder declared).done_last (s := (p, r)) hr h
  obtain ⟨rfl, hq, hstart⟩ := consume_finished hu hstep hs
  refine ⟨hs, hq, front, hdata, fun hstate hnil => hstart ?_⟩
  rw [hnil, Decoder.parse_nil, Outcome.more.injEq] at hfront
  exact hfront ▸ hstate

/-- A reply that is finished from the start of the parser takes two bytes at least. -/
theorem parse_done_idle {p q : HAMParser} {r s : HAMReply} {data rest : Bytes} (hp : p.Idle)
    (hr : r.finished = false) (h : (decoder declared).parse (p, r) data = .done (q, s) rest) :
    s.finished = true ∧ q.Idle ∧ ∃ front, front ≠ [] ∧ data = front ++ ch '\n' :: rest := by
  obtain ⟨hs, hq, front, hdata, hne⟩ := parse_done_lineFeed hr h
  exact ⟨hs, hq, front, hne hp.state_eq, hdata⟩

/-- What the cursor leaves unread in front of the next reply: nothing at the beginning of a read,
and afterwards the line feed of the reply before. -/
def IsLead (lead : Bytes) : Prop := lead = [] ∨ lead = [ch '\n']

theorem parse_lead {fits : Region → ℕ → Bool} {lead : Bytes} (hlead : IsLead lead) {p : HAMParser}
    (hp : p.Idle) {r : HAMReply} (hr : r.finished = false) :
    (decoder fits).parse (p, r) lead = .more (p, r) := by
  rcases hlead with rfl | rfl
  · rfl
  · have hline : (decoder fits).step (p, r) (ch '\n') = .ok (p, r) := by
      change hamParserConsume fits p r (ch '\n') = _
      rw [hamParserConsume, hp.state_eq]
      rfl
    rw [(decoder fits).parse_cons_more hline hr, Decoder.parse_nil]

end Hamlog.Library
