import Hamlog.Library.ReadLoop
import Hamlog.Wire.ReplyRoundTrip

/-! # Replies that arrive together

One read may hold several replies. The parser counts the last byte of a reply
not in, the next parse meets that line feed again and skips it in front of the
next reply, and the loop stops one byte before the end. The cursor of the loop
thus stands on the line feed of the reply it has just delivered.
-/
namespace Hamlog.Wire
open Foundation Server Library

/-- Handlers that do nothing to the connection but send requests. -/
def OnlySends (env : Environment) : Prop :=
  ∀ handler uiData reply, ∀ call ∈ env handler uiData reply,
    ∃ request next data, call = .send request next data

/-- What the requests among the calls put into the queue. -/
def sentTuples (calls : List Call) : List HandlerTuple :=
  calls.filterMap fun
    | .send _ handler uiData => some ⟨handler, uiData⟩
    | _ => none

/-- Events without an end of the connection. -/
def Undisturbed (events : List Event) : Prop :=
  ∀ event ∈ events, (∀ data, event ≠ .signal .disconnected data) ∧ ∀ fd, event ≠ .close fd

theorem Undisturbed.append {xs ys : List Event} (hx : Undisturbed xs) (hy : Undisturbed ys) :
    Undisturbed (xs ++ ys) := fun event hevent =>
  (List.mem_append.mp hevent).elim (hx event) (hy event)

theorem applyCalls_sends {calls : List Call}
    (h : ∀ call ∈ calls, ∃ request next data, call = .send request next data)
    (connection : HAMConnection) (hfd : connection.fd ≠ -1) :
    ∃ events, applyCalls connection calls =
        ({ connection with handlers := connection.handlers ++ sentTuples calls }, events) ∧
      deliveries events = [] ∧ Undisturbed events := by
  induction calls generalizing connection with
  | nil => exact ⟨[], by simp [applyCalls, sentTuples], rfl, by simp [Undisturbed]⟩
  | cons call calls ih =>
    obtain ⟨request, next, uiData, rfl⟩ := h call List.mem_cons_self
    obtain ⟨events, hcalls, hnone, hcalm⟩ := ih (fun c hc => h c (List.mem_cons_of_mem _ hc))
      { connection with handlers := connection.handlers ++ [⟨next, uiData⟩] } hfd
    refine ⟨[.signal .requestSent (hamRequestGetData request),
      .write connection.fd (hamRequestGetData request)] ++ events, ?_, ?_, ?_⟩
    · simp [applyCalls, applyCall, hamConnectionSend, hfd, hcalls, sentTuples]
    · rw [deliveries_append, hnone]
      rfl
    · exact Undisturbed.append (by simp [Undisturbed]) hcalm

/-- The call of a queued handler, if it is not NULL. -/
def called (tuple : HandlerTuple) (reply : HAMReply) : List (Handler × HAMReply × ℕ) :=
  match tuple.handler with
  | none => []
  | some handler => [(handler, reply, tuple.uiData)]

/-- What a queued handler sends when it is given its reply. -/
def answers (env : Environment) (tuple : HandlerTuple) (reply : HAMReply) : List HandlerTuple :=
  match tuple.handler with
  | none => []
  | some handler => sentTuples (env handler tuple.uiData reply)

theorem deliver_sends {env : Environment} (henv : OnlySends env) (connection : HAMConnection)
    (hfd : connection.fd ≠ -1) {tuple : HandlerTuple} {others : List HandlerTuple}
    (hqueue : connection.handlers = tuple :: others) :
    ∃ events, deliver env connection =
        ({ connection with
            handlers := others ++ answers env tuple connection.reply, reply := {} }, events) ∧
      deliveries events = called tuple connection.reply ∧ Undisturbed events := by
  rw [deliver, hqueue]
  cases hhandler : tuple.handler with
  | none =>
    exact ⟨[.signal .replyReceived (hamReplyGetDump connection.reply)],
      by simp [hhandler, answers], by simp [called, hhandler, deliveries], by simp [Undisturbed]⟩
  | some handler =>
    obtain ⟨events, hcalls, hnone, hcalm⟩ := applyCalls_sends
      (henv handler tuple.uiData connection.reply) { connection with handlers := others } hfd
    refine ⟨[.signal .replyReceived (hamReplyGetDump connection.reply),
      .handle handler connection.reply tuple.uiData] ++ events, ?_, ?_, ?_⟩
    · simp [hhandler, hcalls, answers]
    · rw [deliveries_append, hnone]
      simp [called, hhandler, deliveries]
    · exact Undisturbed.append (by simp [Undisturbed]) hcalm

/-! ## The cursor -/

/-- A reply that the wire format and the client's buffers can carry. -/
structure Readable (reply : Reply) : Prop where
  wellFormed : WellFormed reply
  fits : FitsClient reply
  content : reply.content = [] ∨ ∃ c ∈ reply.content, c ≠ cr

instance (reply : Reply) : Decidable (Readable reply) :=
  decidable_of_iff (WellFormed reply ∧ FitsClient reply ∧
      (reply.content = [] ∨ ∃ c ∈ reply.content, c ≠ cr))
    ⟨fun ⟨a, b, c⟩ => ⟨a, b, c⟩, fun ⟨a, b, c⟩ => ⟨a, b, c⟩⟩

theorem toString_ends (reply : Reply) : ∃ front, reply.toString.1 = front ++ crlf := by
  rw [Reply.toString_text]
  split_ifs with hcontent
  · exact ⟨_, List.append_nil _⟩
  · exact ⟨_, (List.append_assoc _ _ _).symm⟩

/-- One parse reads the line feed in front and the next reply but its own line feed. -/
theorem hamParserParse_lead {lead : Bytes} (hlead : IsLead lead) {reply : Reply}
    (hreply : Readable reply) {p : HAMParser} (hp : p.Idle) (rest : Bytes) :
    ∃ q : HAMParser, q.Idle ∧ hamParserParse p {} (lead ++ reply.toString.1 ++ rest) =
      some (lead.length + reply.toString.1.length - 1, q, receivedReply reply) := by
  obtain ⟨q, hq, hparse⟩ := parse_toString hreply.wellFormed hreply.content
    (roomFor_declared hreply.fits) hp
  have hskip : (decoder declared).parse (p, {}) lead = .more (p, {}) := parse_lead hlead hp rfl
  refine ⟨q, hq, ?_⟩
  rw [hamParserParse_eq, List.append_assoc, (decoder declared).parse_append_more hskip,
    (decoder declared).parse_append_done hparse]
  simp only [List.nil_append, List.length_append, Option.some.injEq, Prod.mk.injEq, and_true]
  omega

/-- Where the next turn starts: on the line feed of the reply that was read. -/
theorem cursor_next {data lead rest : Bytes} {parsedTotal : ℕ} (reply : Reply)
    (hdata : data.drop parsedTotal = lead ++ reply.toString.1 ++ rest) :
    data.drop (parsedTotal + (lead.length + reply.toString.1.length - 1)) = [ch '\n'] ++ rest ∧
      parsedTotal + 2 + rest.length ≤ data.length ∧
      2 ≤ lead.length + reply.toString.1.length := by
  obtain ⟨front, hfront⟩ := toString_ends reply
  have htext : lead ++ reply.toString.1 ++ rest =
      (lead ++ front ++ [ch '\r']) ++ ([ch '\n'] ++ rest) := by
    rw [hfront, show crlf = [ch '\r'] ++ [ch '\n'] from rfl]
    simp only [List.append_assoc]
  have hcount : reply.toString.1.length = front.length + 2 := by
    rw [hfront, List.length_append]
    rfl
  have hcut : lead.length + reply.toString.1.length - 1 = (lead ++ front ++ [ch '\r']).length := by
    simp only [List.length_append, List.length_singleton]
    omega
  have hlen := congrArg List.length hdata
  simp only [List.length_drop, List.length_append] at hlen
  refine ⟨?_, by omega, by omega⟩
  rw [← List.drop_drop, hdata, htext, hcut, List.drop_left]

/-- What the reading of the replies leaves and does. -/
structure Delivers (env : Environment) (connection after : HAMConnection) (events : List Event)
    (tuples others : List HandlerTuple) (replies : List Reply) : Prop where
  opened : after.fd = connection.fd
  idle : after.parser.Idle ∧ after.reply = {}
  queue : after.handlers = others ++ (tuples.zip replies).flatMap
    fun (tuple, reply) => answers env tuple (receivedReply reply)
  calls : deliveries events = (tuples.zip replies).flatMap
    fun (tuple, reply) => called tuple (receivedReply reply)
  undisturbed : Undisturbed events

/-- The loop from a cursor that stands in front of replies. -/
theorem readLoop_replies {env : Environment} (henv : OnlySends env) {replies : List Reply}
    (hreplies : ∀ reply ∈ replies, Readable reply) {data lead : Bytes} {parsedTotal fuel : ℕ}
    (hlead : IsLead lead) (hrest : lead = [] → replies ≠ [])
    (hdata : data.drop parsedTotal = lead ++ replies.flatMap fun reply => reply.toString.1)
    (hfuel : data.length - parsedTotal < fuel) (connection : HAMConnection)
    (hfd : connection.fd ≠ -1) (hidle : connection.parser.Idle) (hfresh : connection.reply = {})
    {tuples others : List HandlerTuple} (htuples : tuples.length = replies.length)
    (hqueue : connection.handlers = tuples ++ others) :
    ∃ after events, readLoop env fuel connection data parsedTotal =
        .ok (after, data.length - 1, events) ∧
      Delivers env connection after events tuples others replies := by
  induction replies generalizing lead parsedTotal fuel connection tuples others with
  | nil =>
    have hline : lead = [ch '\n'] := hlead.resolve_left fun h => hrest h rfl
    have hlen := congrArg List.length hdata
    simp only [List.length_drop, hline, List.flatMap_nil, List.append_nil,
      List.length_singleton] at hlen
    obtain ⟨fuel, rfl⟩ := Nat.exists_eq_succ_of_ne_zero (Nat.ne_of_gt (Nat.zero_lt_of_lt hfuel))
    have hend : parsedTotal = data.length - 1 := by omega
    have hnone : tuples = [] := List.eq_nil_of_length_eq_zero htuples
    refine ⟨connection, [], by rw [readLoop, if_pos hend, hend], rfl, ⟨hidle, hfresh⟩, ?_, ?_, ?_⟩
    · simp [hqueue, hnone]
    · simp [hnone]
    · simp [Undisturbed]
  | cons reply replies ih =>
    obtain ⟨tuple, tuples, rfl⟩ : ∃ tuple others, tuples = tuple :: others := by
      cases tuples with
      | nil => simp at htuples
      | cons tuple tuples => exact ⟨tuple, tuples, rfl⟩
    obtain ⟨q, hq, hparse⟩ := hamParserParse_lead hlead (hreplies reply List.mem_cons_self) hidle
      (replies.flatMap fun reply => reply.toString.1)
    obtain ⟨fuel, rfl⟩ := Nat.exists_eq_succ_of_ne_zero (Nat.ne_of_gt (Nat.zero_lt_of_lt hfuel))
    rw [List.flatMap_cons, ← List.append_assoc] at hdata
    obtain ⟨hnext, hlen, htwo⟩ := cursor_next reply hdata
    obtain ⟨delivered, hdeliver, hcall, hcalm⟩ := deliver_sends henv
      { connection with parser := q, reply := receivedReply reply } hfd (hqueue.trans (List.cons_append ..))
    have henough : data.length - (parsedTotal + (lead.length + reply.toString.1.length - 1)) <
        fuel := by omega
    obtain ⟨after, events, hloop, hafter⟩ := ih (fun r hr => hreplies r (List.mem_cons_of_mem _ hr))
      (.inr rfl) (by simp) hnext henough
      { connection with
        parser := q, reply := {}
        handlers := tuples ++ (others ++ answers env tuple (receivedReply reply)) }
      hfd hq rfl (Nat.succ.inj htuples) rfl
    refine ⟨after, delivered ++ events, ?_, hafter.opened, hafter.idle, ?_, ?_, ?_⟩
    · have hconsumed : ¬(lead.length + reply.toString.1.length - 1 = 0) := by omega
      rw [readLoop, if_neg (by omega), hdata, hfresh, hparse]
      have hfinished : (receivedReply reply).finished = true := rfl
      simp only [hconsumed, if_false, handleParsed, hfinished, if_true, hdeliver, List.append_assoc,
        hloop]
    · simp [hafter.queue]
    · rw [deliveries_append, hcall, hafter.calls]
      simp
    · exact hcalm.append hafter.undisturbed

/-- Replies of the server that arrive in one read are passed to the queued handlers one by one, in
their order, and the loop ends one byte before the end of the read with the connection open. -/
theorem hamConnectionReadData_coalesced (env : Environment) (henv : OnlySends env)
    (connection : HAMConnection) (hfd : connection.fd ≠ -1) (hidle : connection.parser.Idle)
    (hfresh : connection.reply = {}) (replies : List Reply) (hne : replies ≠ [])
    (hreplies : ∀ reply ∈ replies, Readable reply)
    (hqueue : replies.length ≤ connection.handlers.length)
    (hlen : (replies.flatMap fun reply => reply.toString.1).length < 65535) :
    let data := replies.flatMap fun reply => reply.toString.1
    ∃ after events,
      readLoop env (data.length + 1) connection data 0 = .ok (after, data.length - 1, events) ∧
      hamConnectionReadData env connection (some data) = .ok (after, events) ∧
      Delivers env connection after events (connection.handlers.take replies.length)
        (connection.handlers.drop replies.length) replies := by
  intro data
  have hdata : data.drop 0 = [] ++ replies.flatMap fun reply => reply.toString.1 := rfl
  have hfuel : data.length - 0 < data.length + 1 := by omega
  obtain ⟨after, events, hloop, hafter⟩ := readLoop_replies henv hreplies (.inl rfl)
    (fun _ => hne) hdata hfuel connection hfd hidle hfresh (List.length_take_of_le hqueue)
    (List.take_append_drop replies.length connection.handlers).symm
  have hsome : data ≠ [] := by
    obtain ⟨reply, rest, rfl⟩ := List.exists_cons_of_ne_nil hne
    obtain ⟨front, hfront⟩ := toString_ends reply
    simp [data, hfront, crlf]
  refine ⟨after, events, hloop, ?_, hafter⟩
  rw [hamConnectionReadData_some hfd hsome hlen, hloop]

/-- The first handler asks for the modules again. -/
def askingAgain : Environment
  | .client 0, _, _ => [.send modulesRequest (some (.client 1)) 7]
  | _, _, _ => []

/-- Two requests are not answered yet. -/
def askedTwice : HAMConnection where
  fd := 4
  inputHandle := some 0
  handlers := [⟨some (.client 0), 5⟩, ⟨none, 6⟩]

theorem askingAgain_onlySends : OnlySends askingAgain := by
  intro handler uiData reply call hcall
  unfold askingAgain at hcall
  split at hcall
  · exact ⟨_, _, _, List.mem_singleton.mp hcall⟩
  · exact absurd hcall List.not_mem_nil

theorem hamConnectionReadData_askedTwice :
    let data := [sampleReply, {}].flatMap fun reply => reply.toString.1
    ∃ after events,
      readLoop askingAgain (data.length + 1) askedTwice data 0 =
        .ok (after, data.length - 1, events) ∧
      hamConnectionReadData askingAgain askedTwice (some data) = .ok (after, events) ∧
      Delivers askingAgain askedTwice after events (askedTwice.handlers.take 2)
        (askedTwice.handlers.drop 2) [sampleReply, {}] :=
  hamConnectionReadData_coalesced askingAgain askingAgain_onlySends askedTwice (by decide)
    ⟨rfl, rfl⟩ rfl [sampleReply, {}] (by decide) (by decide) (by decide)
    (by decide +kernel)

end Hamlog.Wire
