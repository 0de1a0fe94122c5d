import Hamlog.Foundation.Runs
import Hamlog.Library.ReadLoop

/-! # Which request a reply answers

Runs of one `HAMConnection`: calls of its functions by the program and by its
handlers, and reads. Beside the connection a ledger is kept, which the code does
not have: it numbers the sockets, the requests sent over each of them and the
replies received over each of them, and remembers whose handler was called with
which reply. The queue of handlers, the parser and the reply under construction
outlive a disconnect, so they match only while every connect finds them empty.
-/
namespace Hamlog.Library
open Foundation Wire

/-- A handler called with a reply: the call, the socket and number of the request that queued the
handler, the socket and number of the reply, and the socket over which its first bytes came. -/
structure Delivery where
  call : Handler × HAMReply × ℕ
  owner : Option (ℕ × ℕ)
  answer : ℕ × ℕ
  origin : ℕ

/-- The handler was queued by the request that the reply answers, and the reply came over one
socket. -/
def Delivery.Matched (delivery : Delivery) : Prop :=
  delivery.owner = some delivery.answer ∧ delivery.origin = delivery.answer.1

instance (delivery : Delivery) : Decidable delivery.Matched :=
  inferInstanceAs (Decidable (_ ∧ _))

/-- `owners` are the sockets and numbers of the requests whose handlers are queued, and `origin` is
the socket over which the reply under construction was begun. `careful` remembers that every
connect found nothing left of an earlier socket and every reply a queued handler. -/
structure Ledger where
  socket : ℕ := 0
  sent : ℕ := 0
  received : ℕ → ℕ := fun _ => 0
  owners : List (ℕ × ℕ) := []
  origin : ℕ := 0
  log : List Delivery := []
  careful : Bool := true

/-- The parser and the reply under construction hold nothing of a reply. -/
def fresh (connection : HAMConnection) : Bool :=
  connection.parser.state = .httpVersionH && connection.parser.ptr = none && connection.reply = {}

/-- Nothing is left of the earlier socket: no handler waits, no byte of the read is unread behind
the reply that is being delivered, and no reply is half filled. -/
def clean (unread : Bool) (connection : HAMConnection) : Bool :=
  connection.handlers.isEmpty && !unread && (connection.reply.finished || fresh connection)

def Ledger.send (ledger : Ledger) (connection : HAMConnection) : Ledger :=
  if connection.fd = -1 then ledger
  else
    { ledger with
      sent := ledger.sent + 1, owners := ledger.owners ++ [(ledger.socket, ledger.sent)] }

/-- A new socket. -/
def Ledger.opened (ledger : Ledger) (clean : Bool) : Ledger :=
  { ledger with socket := ledger.socket + 1, sent := 0, careful := ledger.careful && clean }

def trackCall (unread : Bool) (connection : HAMConnection) (ledger : Ledger) : Call → Ledger
  | .send _ _ _ => ledger.send connection
  | .disconnect => ledger
  | .connect outcome =>
    if connection.fd ≠ -1 then ledger
    else
      match outcome with
      | .lookupFailed _ | .socketFailed _ => ledger
      | .connectFailed _ _ => ledger.opened (clean unread connection)
      | .connected fd handle =>
        (ledger.opened (clean unread connection)).send { connection with fd, inputHandle := handle }

def trackCalls (unread : Bool) (connection : HAMConnection) (ledger : Ledger) :
    List Call → Ledger
  | [] => ledger
  | call :: calls =>
    trackCalls unread (applyCall connection call).1 (trackCall unread connection ledger call) calls

/-- The ledger behind `deliver`, for a reply received over the socket `source`. -/
def trackDeliver (env : Environment) (source : ℕ) (unread : Bool) (connection : HAMConnection)
    (ledger : Ledger) : Ledger :=
  let number := ledger.received source
  let counted := { ledger with
    received := Function.update ledger.received source (number + 1)
    owners := ledger.owners.tail
    careful := ledger.careful && !connection.handlers.isEmpty }
  match connection.handlers with
  | [] => counted
  | tuple :: handlers =>
    match tuple.handler with
    | none => counted
    | some handler =>
      let delivery : Delivery :=
        ⟨(handler, connection.reply, tuple.uiData), ledger.owners.head?, (source, number),
          ledger.origin⟩
      trackCalls unread { connection with handlers }
        { counted with log := counted.log ++ [delivery] }
        (env handler tuple.uiData connection.reply)

/-- A parse that finds nothing of a reply begins one. -/
def Ledger.begin (ledger : Ledger) (source : ℕ) (connection : HAMConnection) : Ledger :=
  if fresh connection then { ledger with origin := source } else ledger

/-- The ledger beside `readLoop`, for bytes received over the socket `source`. -/
def trackLoop (env : Environment) (source : ℕ) :
    ℕ → HAMConnection → Ledger → Bytes → ℕ → Ledger
  | 0, _, ledger, _, _ => ledger
  | fuel + 1, connection, ledger, data, parsedTotal =>
    if parsedTotal = data.length - 1 then ledger
    else
      let begun := ledger.begin source connection
      match hamParserParse connection.parser connection.reply (data.drop parsedTotal) with
      | none => begun
      | some (parsed, parser, reply) =>
        let connection := { connection with parser, reply }
        if parsed = 0 then begun
        else
          let unread := !decide (parsedTotal + parsed = data.length - 1)
          trackLoop env source fuel (handleParsed env connection).1
            (if reply.finished then trackDeliver env source unread connection begun else begun)
            data (parsedTotal + parsed)

def trackRead (env : Environment) (connection : HAMConnection) (ledger : Ledger) :
    Option Bytes → Ledger
  | none | some [] => ledger
  | some data =>
    if connection.fd = -1 then ledger
    else trackLoop env ledger.socket (data.length + 1) connection ledger data 0

/-- What happens to a connection: a call by the program, or its socket gets readable. -/
inductive Action where
  | call (call : Call)
  | read (result : Option Bytes)

/-- The run stops only at a read that leaves a buffer. -/
def system (env : Environment) : System (HAMConnection × Ledger) Action where
  start := ({}, {})
  enabled _ _ := true
  step := fun (connection, ledger) action =>
    match action with
    | .call call => some ((applyCall connection call).1, trackCall false connection ledger call)
    | .read result =>
      match hamConnectionReadData env connection result with
      | .error _ => none
      | .ok (after, _) => some (after, trackRead env connection ledger result)

/-! ## The queue and the ledger -/

/-- The queued handlers are those of the requests of the current socket that are not answered yet,
in their order. -/
structure Balanced (connection : HAMConnection) (ledger : Ledger) : Prop where
  owners : ledger.owners = (List.range' (ledger.received ledger.socket)
    connection.handlers.length).map fun number => (ledger.socket, number)
  sent : ledger.received ledger.socket + connection.handlers.length = ledger.sent
  later : ∀ socket, ledger.socket < socket → ledger.received socket = 0
  log : ∀ delivery ∈ ledger.log, delivery.Matched

section Calls
variable {connection : HAMConnection} {ledger : Ledger}

theorem Balanced.send (h : Balanced connection ledger) (request : HAMRequest)
    (handler : Option Handler) (uiData : ℕ) :
    Balanced (hamConnectionSend connection request handler uiData).1 (ledger.send connection) := by
  unfold hamConnectionSend Ledger.send
  split_ifs with hfd
  · exact h
  · refine ⟨?_, ?_, h.later, h.log⟩
    · simp only [List.length_append, List.length_singleton]
      rw [List.range'_concat, List.map_append, h.owners, ← h.sent]
      simp
    · simp only [List.length_append, List.length_singleton, ← h.sent]
      omega

theorem Balanced.opened (h : Balanced connection ledger) (hempty : connection.handlers = [])
    (clean : Bool) (fd : ℤ) (inputHandle : Option ℕ) :
    Balanced { connection with fd, inputHandle } (ledger.opened clean) := by
  have hnone : ledger.received (ledger.socket + 1) = 0 := h.later _ (Nat.lt_succ_self _)
  refine ⟨?_, ?_, fun socket hlt => h.later socket (Nat.lt_of_succ_lt hlt), h.log⟩
  · simpa [Ledger.opened, hempty] using h.owners
  · simp [Ledger.opened, hempty, hnone]

theorem clean_empty {unread : Bool} (h : clean unread connection = true) :
    connection.handlers = [] ∧ unread = false ∧
      (connection.reply.finished = true ∨ fresh connection = true) := by
  simpa [clean, and_assoc] using h

theorem Ledger.send_careful (ledger : Ledger) (connection : HAMConnection) :
    (ledger.send connection).careful = ledger.careful := by
  unfold Ledger.send
  split_ifs <;> rfl

/-- A careful call keeps the balance. -/
theorem trackCall_balanced {unread : Bool} {call : Call}
    (hcareful : (trackCall unread connection ledger call).careful = true) :
    ledger.careful = true ∧
      (Balanced connection ledger →
        Balanced (applyCall connection call).1 (trackCall unread connection ledger call)) := by
  cases call with
  | send request handler uiData =>
    exact ⟨by rwa [trackCall, Ledger.send_careful] at hcareful,
      fun h => h.send request handler uiData⟩
  | disconnect =>
    refine ⟨hcareful, fun h => ?_⟩
    simp only [applyCall, hamConnectionDisconnect, trackCall]
    split_ifs
    · exact h
    · exact ⟨h.owners, h.sent, h.later, h.log⟩
  | connect outcome =>
    simp only [trackCall, applyCall, hamConnectionConnect] at hcareful ⊢
    split_ifs at hcareful ⊢ with hfd
    · exact ⟨hcareful, id⟩
    · cases outcome with
      | lookupFailed error => exact ⟨hcareful, id⟩
      | socketFailed error => exact ⟨hcareful, fun h => ⟨h.owners, h.sent, h.later, h.log⟩⟩
      | connectFailed fd error =>
        simp only [Ledger.opened, Bool.and_eq_true] at hcareful
        exact ⟨hcareful.1, fun h => h.opened (clean_empty hcareful.2).1 _ fd connection.inputHandle⟩
      | connected fd handle =>
        rw [Ledger.send_careful] at hcareful
        simp only [Ledger.opened, Bool.and_eq_true] at hcareful
        exact ⟨hcareful.1, fun h => (h.opened (clean_empty hcareful.2).1 _ fd handle).send _ _ _⟩

/-- A careful call opens a new socket only where nothing is left of the earlier one. -/
theorem trackCall_socket {unread : Bool} {call : Call}
    (hcareful : (trackCall unread connection ledger call).careful = true) :
    (trackCall unread connection ledger call).socket = ledger.socket ∧
        ((applyCall connection call).1.fd ≠ -1 → connection.fd ≠ -1) ∨
      clean unread connection = true := by
  cases call with
  | send request handler uiData =>
    refine .inl ⟨?_, fun h => ?_⟩
    · unfold trackCall Ledger.send
      split_ifs <;> rfl
    · unfold applyCall hamConnectionSend at h
      split_ifs at h <;> exact h
  | disconnect =>
    refine .inl ⟨rfl, fun h => ?_⟩
    unfold applyCall hamConnectionDisconnect at h
    split_ifs at h with hfd
    · exact h
    · exact hfd
  | connect outcome =>
    simp only [trackCall, applyCall, hamConnectionConnect] at hcareful ⊢
    split_ifs at hcareful ⊢ with hfd
    · exact .inl ⟨rfl, id⟩
    · cases outcome with
      | lookupFailed error => exact .inl ⟨rfl, id⟩
      | socketFailed error => exact .inl ⟨rfl, fun h => absurd rfl h⟩
      | connectFailed fd error =>
        simp only [Ledger.opened, Bool.and_eq_true] at hcareful
        exact .inr hcareful.2
      | connected fd handle =>
        rw [Ledger.send_careful] at hcareful
        simp only [Ledger.opened, Bool.and_eq_true] at hcareful
        exact .inr hcareful.2

/-- A call leaves the origin of the reply under way and the log alone. -/
theorem trackCall_keeps (unread : Bool) (connection : HAMConnection) (ledger : Ledger)
    (call : Call) : (trackCall unread connection ledger call).origin = ledger.origin ∧
      (trackCall unread connection ledger call).log = ledger.log := by
  have hsend (l : Ledger) (c : HAMConnection) :
      (l.send c).origin = l.origin ∧ (l.send c).log = l.log := by
    unfold Ledger.send
    split_ifs <;> exact ⟨rfl, rfl⟩
  cases call with
  | send request handler uiData => exact hsend ledger connection
  | disconnect => exact ⟨rfl, rfl⟩
  | connect outcome =>
    simp only [trackCall]
    split_ifs
    · exact ⟨rfl, rfl⟩
    · cases outcome with
      | connected fd handle => exact hsend _ _
      | lookupFailed | socketFailed | connectFailed => exact ⟨rfl, rfl⟩

theorem trackCalls_balanced (unread : Bool) (calls : List Call)
    (hcareful : (trackCalls unread connection ledger calls).careful = true) :
    ledger.careful = true ∧
      (Balanced connection ledger →
        Balanced (applyCalls connection calls).1 (trackCalls unread connection ledger calls)) ∧
      ((trackCalls unread connection ledger calls).socket = ledger.socket ∨ unread = false) := by
  induction calls generalizing connection ledger with
  | nil => exact ⟨hcareful, id, .inl rfl⟩
  | cons call calls ih =>
    obtain ⟨hbetween, hcalls, hsocket⟩ := ih hcareful
    obtain ⟨hbefore, hcall⟩ := trackCall_balanced hbetween
    refine ⟨hbefore, fun h => hcalls (hcall h), ?_⟩
    rcases trackCall_socket hbetween with ⟨heq, -⟩ | hclean
    · exact hsocket.imp_left fun h => h.trans heq
    · exact .inr (clean_empty hclean).2.1

/-- The ledger behind a reply, when its handler is out of the queue. -/
theorem Balanced.counted (h : Balanced connection ledger) {tuple : HandlerTuple}
    {handlers : List HandlerTuple} (hqueue : connection.handlers = tuple :: handlers)
    {log : List Delivery} (hlog : ∀ delivery ∈ log, delivery.Matched) (careful : Bool) :
    Balanced { connection with handlers }
      { ledger with
        received := Function.update ledger.received ledger.socket
          (ledger.received ledger.socket + 1)
        owners := ledger.owners.tail, log, careful } := by
  have hsent := h.sent
  have howners := h.owners
  simp only [hqueue, List.length_cons, List.range'_succ, List.map_cons] at hsent howners
  refine ⟨?_, ?_, fun socket hlt => ?_, hlog⟩
  · simp [howners]
  · simp only [Function.update_self]
    omega
  · simp only [Function.update_of_ne (Nat.ne_of_gt hlt)]
    exact h.later socket hlt

theorem Balanced.withReply (h : Balanced connection ledger) (reply : HAMReply) :
    Balanced { connection with reply } ledger := ⟨h.owners, h.sent, h.later, h.log⟩

/-- A reply that comes over the current socket is passed to the handler of its own request. -/
theorem trackDeliver_balanced (env : Environment) {source : ℕ} {unread : Bool}
    (hcareful : (trackDeliver env source unread connection ledger).careful = true) :
    ledger.careful = true ∧
      (Balanced connection ledger → ledger.socket = source → ledger.origin = source →
        Balanced (deliver env connection).1 (trackDeliver env source unread connection ledger)) ∧
      ((trackDeliver env source unread connection ledger).socket = ledger.socket ∨
        unread = false) := by
  unfold trackDeliver deliver at *
  cases hqueue : connection.handlers with
  | nil => simp [hqueue] at hcareful
  | cons tuple handlers =>
    simp only [hqueue, List.isEmpty_cons, Bool.not_false, Bool.and_true] at hcareful ⊢
    cases hhandler : tuple.handler with
    | none =>
      simp only [hhandler] at hcareful ⊢
      refine ⟨hcareful, fun h hsource _ => ?_, by simp⟩
      subst hsource
      exact (h.counted hqueue h.log _).withReply {}
    | some handler =>
      simp only [hhandler] at hcareful ⊢
      obtain ⟨hbefore, hcalls, hsocket⟩ := trackCalls_balanced unread _ hcareful
      refine ⟨hbefore, fun h hsource horigin => ?_, hsocket⟩
      subst hsource
      refine (hcalls (h.counted hqueue ?_ _)).withReply {}
      intro delivery hdelivery
      rcases List.mem_append.mp hdelivery with hold | hnew
      · exact h.log delivery hold
      · rw [List.mem_singleton.mp hnew]
        refine ⟨?_, horigin⟩
        simp [h.owners, hqueue, List.range'_succ]

end Calls

/-! ## Reads -/

theorem Ledger.begin_careful (ledger : Ledger) (source : ℕ) (connection : HAMConnection) :
    (ledger.begin source connection).careful = ledger.careful := by
  unfold Ledger.begin
  split_ifs <;> rfl

theorem Ledger.begin_socket (ledger : Ledger) (source : ℕ) (connection : HAMConnection) :
    (ledger.begin source connection).socket = ledger.socket := by
  unfold Ledger.begin
  split_ifs <;> rfl

theorem trackLoop_careful {env : Environment} {source fuel : ℕ} {connection : HAMConnection}
    {ledger : Ledger} {data : Bytes} {parsedTotal : ℕ}
    (h : (trackLoop env source fuel connection ledger data parsedTotal).careful = true) :
    ledger.careful = true := by
  induction fuel generalizing connection ledger parsedTotal with
  | zero => exact h
  | succ fuel ih =>
    rw [trackLoop] at h
    split_ifs at h
    · exact h
    rw [← ledger.begin_careful source connection]
    cases hparse : hamParserParse connection.parser connection.reply (data.drop parsedTotal) with
    | none => simpa only [hparse] using h
    | some result =>
      simp only [hparse] at h
      split_ifs at h with hzero hfinished
      · exact h
      · exact (trackDeliver_balanced env (ih h)).1
      · exact ih h

/-- Inside a read: the ledger is balanced, and a reply under construction was begun over the current
socket. -/
structure Reading (connection : HAMConnection) (ledger : Ledger) : Prop
    extends Balanced connection ledger where
  begun : fresh connection = true ∨ ledger.origin = ledger.socket
  unfinished : connection.reply.finished = false

/-- Between two steps, moreover, the parser of an open connection is idle: bytes that end inside a
reply have closed it. -/
structure Settled (connection : HAMConnection) (ledger : Ledger) : Prop
    extends Reading connection ledger where
  idle : connection.fd ≠ -1 → connection.parser.Idle

/-- A parse leaves the balance, and what it reads belongs to the current socket. -/
theorem Reading.begin {connection : HAMConnection} {ledger : Ledger}
    (h : Reading connection ledger) (parser : HAMParser) (reply : HAMReply) :
    Balanced { connection with parser, reply } (ledger.begin ledger.socket connection) ∧
      (ledger.begin ledger.socket connection).origin = ledger.socket := by
  unfold Ledger.begin
  split_ifs with hfresh
  · exact ⟨⟨h.owners, h.sent, h.later, h.log⟩, rfl⟩
  · exact ⟨⟨h.owners, h.sent, h.later, h.log⟩, h.begun.resolve_left hfresh⟩

theorem fresh_of_idle {connection : HAMConnection} (hidle : connection.parser.Idle)
    (hreply : connection.reply = {}) : fresh connection = true := by
  simp [fresh, hidle.state_eq, hidle.ptr_eq, hreply]

/-- A parse of the loop starts with an idle parser or has no bytes. If it finishes a reply, it
consumes something; if not, the parser is idle behind it or the bytes have run out. -/
theorem parse_between {p q : HAMParser} {r s : HAMReply} {data : Bytes} {n : ℕ}
    (hidle : p.Idle ∨ data = []) (hr : r.finished = false)
    (h : hamParserParse p r data = some (n, q, s)) :
    (s.finished = true → n ≠ 0 ∧ q.Idle) ∧ (s.finished = false → q.Idle ∨ n = data.length) := by
  rw [hamParserParse_eq] at h
  cases hp : (decoder declared).parse (p, r) data with
  | more t =>
    have hf := (decoder declared).more_unfinished (s := (p, r)) hr hp
    simp only [hp, Option.some.injEq, Prod.mk.injEq] at h
    obtain ⟨rfl, rfl⟩ := h
    exact ⟨fun hs => absurd hf (by simp [decoder, hs]), fun _ => .inr rfl⟩
  | done t rest =>
    simp only [hp, Option.some.injEq, Prod.mk.injEq] at h
    obtain ⟨rfl, rfl⟩ := h
    have hnil : data ≠ [] := by
      rintro rfl
      cases hp
    obtain ⟨hs, hq, front, hne, rfl⟩ := parse_done_idle (hidle.resolve_right hnil) hr hp
    have hpos := List.length_pos_of_ne_nil hne
    refine ⟨fun _ => ⟨?_, hq⟩, fun hnot => absurd hs (by simp [hnot])⟩
    simp only [List.length_append, List.length_cons]
    omega
  | fail t stop rest =>
    have hf := (decoder declared).fail_unfinished (s := (p, r)) hr hp
    cases stop with
    | fault => simp [hp] at h
    | rejected =>
      simp only [hp, Option.some.injEq, Prod.mk.injEq] at h
      obtain ⟨-, rfl, rfl⟩ := h
      exact ⟨fun hs => absurd hf (by simp [decoder, hs]), fun _ => .inl (hamParserReset_idle _)⟩

/-- A disconnect leaves nothing to be idle for. -/
theorem Reading.disconnect {connection : HAMConnection} {ledger : Ledger}
    (h : Reading connection ledger) : Settled (hamConnectionDisconnect connection).1 ledger := by
  unfold hamConnectionDisconnect
  split_ifs with hfd
  · exact ⟨h, fun hopen => absurd hfd hopen⟩
  · exact ⟨⟨⟨h.owners, h.sent, h.later, h.log⟩, h.begun, h.unfinished⟩, fun hopen => absurd rfl hopen⟩

/-- A careful read over the current socket. -/
theorem trackLoop_settled (env : Environment) (source : ℕ) {fuel : ℕ}
    {connection after : HAMConnection} {ledger : Ledger} {data : Bytes}
    {parsedTotal parsedTotal' : ℕ} {events : List Event} (hne : data ≠ [])
    (hle : parsedTotal ≤ data.length)
    (hidle : connection.parser.Idle ∨ parsedTotal = data.length)
    (hloop : readLoop env fuel connection data parsedTotal = .ok (after, parsedTotal', events))
    (hcareful : (trackLoop env source fuel connection ledger data parsedTotal).careful = true)
    (h : Reading connection ledger)
    (hsource : ledger.socket = source ∨ parsedTotal = data.length - 1) :
    Settled after (trackLoop env source fuel connection ledger data parsedTotal) := by
  have hpos := List.length_pos_of_ne_nil hne
  induction fuel generalizing connection ledger parsedTotal events with
  | zero => cases hloop
  | succ fuel ih =>
    rw [trackLoop] at hcareful ⊢
    by_cases hend : parsedTotal = data.length - 1
    · rw [readLoop_end env fuel connection hend] at hloop
      cases hloop
      rw [if_pos hend]
      exact ⟨h, fun _ => hidle.resolve_right (by omega)⟩
    rw [if_neg hend] at hcareful ⊢
    obtain rfl := hsource.resolve_right hend
    cases hparse : hamParserParse connection.parser connection.reply (data.drop parsedTotal) with
    | none => simp [readLoop, hend, hparse] at hloop
    | some result =>
      obtain ⟨parsed, parser, reply⟩ := result
      rw [readLoop_turn env fuel connection hend hparse] at hloop
      simp only [hparse] at hcareful ⊢
      have hparsed := parseFrom_le hparse
      rw [Nat.zero_add, List.length_drop] at hparsed
      obtain ⟨hdone, hopen⟩ := parse_between
        (hidle.imp_right fun heq => by rw [heq, List.drop_length]) h.unfinished hparse
      obtain ⟨hbalanced, horigin⟩ := h.begin parser reply
      have hsocket := ledger.begin_socket ledger.socket connection
      by_cases hzero : parsed = 0
      · rw [if_pos hzero] at hloop ⊢
        have hunfinished : reply.finished = false :=
          Bool.eq_false_iff.mpr fun hs => (hdone hs).1 hzero
        simp only [refuse, Except.ok.injEq, Prod.mk.injEq] at hloop
        rw [← hloop.1]
        exact Reading.disconnect ⟨hbalanced, .inr (horigin.trans hsocket.symm), hunfinished⟩
      rw [if_neg hzero] at hloop hcareful ⊢
      cases hfinished : reply.finished with
      | false =>
        simp only [handleParsed, hfinished, Bool.false_eq_true, if_false, prepend_nil] at hloop hcareful ⊢
        exact ih (by omega) ((hopen hfinished).imp_right fun heq => by
            rw [heq, List.length_drop]
            omega) hloop hcareful ⟨hbalanced, .inr (horigin.trans hsocket.symm), hfinished⟩
          (.inl hsocket)
      | true =>
        simp only [handleParsed, hfinished, if_true] at hloop hcareful ⊢
        obtain ⟨hparser, hreply⟩ := deliver_keeps env { connection with parser, reply }
        have hidle' : (deliver env { connection with parser, reply }).1.parser.Idle := by
          rw [hparser]
          exact (hdone hfinished).2
        obtain ⟨-, hdelivered, hwhere⟩ := trackDeliver_balanced env (trackLoop_careful hcareful)
        cases hrest : readLoop env fuel (deliver env { connection with parser, reply }).1 data
            (parsedTotal + parsed) with
        | error halt =>
          rw [hrest] at hloop
          cases hloop
        | ok result =>
          obtain ⟨final, finalTotal, others⟩ := result
          rw [hrest] at hloop
          cases hloop
          refine ih (by omega) (.inl hidle') hrest hcareful
            ⟨hdelivered hbalanced hsocket horigin, .inl (fresh_of_idle hidle' hreply), ?_⟩ ?_
          · rw [hreply]
          · exact hwhere.imp (fun heq => heq.trans hsocket) fun hread => by simpa using hread

/-! ## The log and the events -/

theorem deliveries_send (connection : HAMConnection) (request : HAMRequest)
    (handler : Option Handler) (uiData : ℕ) :
    deliveries (hamConnectionSend connection request handler uiData).2 = [] := by
  unfold hamConnectionSend
  split_ifs <;> rfl

theorem deliveries_applyCall (connection : HAMConnection) (call : Call) :
    deliveries (applyCall connection call).2 = [] := by
  cases call with
  | send request handler uiData => exact deliveries_send connection request handler uiData
  | disconnect => exact deliveries_disconnect connection
  | connect outcome =>
    simp only [applyCall, hamConnectionConnect]
    split_ifs
    · rfl
    · cases outcome with
      | connected fd handle => exact deliveries_send _ _ _ _
      | lookupFailed | socketFailed | connectFailed => rfl

theorem deliveries_applyCalls (connection : HAMConnection) (calls : List Call) :
    deliveries (applyCalls connection calls).2 = [] := by
  induction calls generalizing connection with
  | nil => rfl
  | cons call calls ih =>
    rw [applyCalls, deliveries_append, deliveries_applyCall, ih, List.append_nil]

theorem trackCalls_log (unread : Bool) (connection : HAMConnection) (ledger : Ledger)
    (calls : List Call) : (trackCalls unread connection ledger calls).log = ledger.log := by
  induction calls generalizing connection ledger with
  | nil => rfl
  | cons call calls ih => rw [trackCalls, ih, (trackCall_keeps _ _ _ _).2]

theorem trackDeliver_log (env : Environment) (source : ℕ) (unread : Bool)
    (connection : HAMConnection) (ledger : Ledger) :
    (trackDeliver env source unread connection ledger).log.map (·.call) =
      ledger.log.map (·.call) ++ deliveries (deliver env connection).2 := by
  unfold trackDeliver deliver
  cases connection.handlers with
  | nil => simp [deliveries]
  | cons tuple handlers =>
    cases hhandler : tuple.handler with
    | none => simp [hhandler, deliveries]
    | some handler =>
      simp only [hhandler, trackCalls_log, List.map_append, List.map_cons, List.map_nil]
      have hcalls := deliveries_applyCalls { connection with handlers }
        (env handler tuple.uiData connection.reply)
      simp only [deliveries] at hcalls ⊢
      simp [hcalls]

/-- The log of the ledger is the list of the handler calls. -/
theorem trackLoop_log (env : Environment) (source : ℕ) {fuel : ℕ}
    {connection after : HAMConnection} (ledger : Ledger) {data : Bytes}
    {parsedTotal parsedTotal' : ℕ} {events : List Event}
    (hloop : readLoop env fuel connection data parsedTotal = .ok (after, parsedTotal', events)) :
    (trackLoop env source fuel connection ledger data parsedTotal).log.map (·.call) =
      ledger.log.map (·.call) ++ deliveries events := by
  induction fuel generalizing connection ledger parsedTotal events with
  | zero => cases hloop
  | succ fuel ih =>
    have hbegin : (ledger.begin source connection).log = ledger.log := by
      unfold Ledger.begin
      split_ifs <;> rfl
    rw [trackLoop]
    by_cases hend : parsedTotal = data.length - 1
    · rw [readLoop_end env fuel connection hend] at hloop
      cases hloop
      simp [hend]
    cases hparse : hamParserParse connection.parser connection.reply (data.drop parsedTotal) with
    | none => simp [readLoop, hend, hparse] at hloop
    | some result =>
      obtain ⟨parsed, parser, reply⟩ := result
      rw [readLoop_turn env fuel connection hend hparse] at hloop
      simp only [if_neg hend]
      split_ifs at hloop ⊢ with hzero hfinished
      · cases hloop
        have hnone := deliveries_disconnect { connection with parser, reply }
        simp only [deliveries] at hnone ⊢
        simp [hbegin, hnone]
      · rw [handleParsed, if_pos hfinished] at hloop ⊢
        simp only at hloop
        cases hrest : readLoop env fuel (deliver env { connection with parser, reply }).1 data
            (parsedTotal + parsed) with
        | error halt => simp [hrest, prepend] at hloop
        | ok result =>
          rw [hrest] at hloop
          cases hloop
          rw [ih _ hrest, trackDeliver_log, hbegin, deliveries_append, List.append_assoc]
      · rw [handleParsed, if_neg hfinished] at hloop ⊢
        rw [prepend_nil] at hloop
        rw [ih _ hloop, hbegin]

theorem trackRead_closed (env : Environment) {connection : HAMConnection}
    (h : connection.fd = -1) (ledger : Ledger) (result : Option Bytes) :
    trackRead env connection ledger result = ledger := by
  unfold trackRead
  split
  · rfl
  · rfl
  · exact if_pos h

theorem trackRead_loop (env : Environment) {connection : HAMConnection}
    (h : connection.fd ≠ -1) (ledger : Ledger) {data : Bytes} (hne : data ≠ []) :
    trackRead env connection ledger (some data) =
      trackLoop env ledger.socket (data.length + 1) connection ledger data 0 := by
  obtain ⟨b, data, rfl⟩ := List.exists_cons_of_ne_nil hne
  exact if_neg h

theorem trackRead_log (env : Environment) {connection after : HAMConnection} (ledger : Ledger)
    {result : Option Bytes} {events : List Event}
    (hread : hamConnectionReadData env connection result = .ok (after, events)) :
    (trackRead env connection ledger result).log.map (·.call) =
      ledger.log.map (·.call) ++ deliveries events := by
  rcases readData_cases hread with ⟨hfd, -, rfl⟩ | ⟨-, rfl, -, rfl⟩ | ⟨hfd, data, n, rfl, hne, -, hloop⟩
  · rw [trackRead_closed env hfd, deliveries_nil, List.append_nil]
  · have hnone := deliveries_disconnect connection
    simp only [deliveries] at hnone ⊢
    simp [trackRead, hnone]
  · rw [trackRead_loop env hfd ledger hne]
    exact trackLoop_log env ledger.socket ledger hloop

/-! ## Runs -/

theorem trackCall_settled {connection : HAMConnection} {ledger : Ledger} {call : Call}
    (hcareful : (trackCall false connection ledger call).careful = true)
    (h : Settled connection ledger) :
    Settled (applyCall connection call).1 (trackCall false connection ledger call) := by
  obtain ⟨hparser, hreply⟩ := applyCall_keeps connection call
  have hfresh : fresh (applyCall connection call).1 = fresh connection := by
    rw [fresh, hparser, hreply, fresh]
  have hclean (hclean : clean false connection = true) : fresh connection = true :=
    (clean_empty hclean).2.2.resolve_left (by simp [h.unfinished])
  refine ⟨⟨(trackCall_balanced hcareful).2 h.toBalanced, ?_, by rw [hreply]; exact h.unfinished⟩, ?_⟩
  · rw [hfresh, (trackCall_keeps _ _ _ _).1]
    rcases trackCall_socket hcareful with ⟨heq, -⟩ | hopened
    · rw [heq]
      exact h.begun
    · exact .inl (hclean hopened)
  · rw [hparser]
    intro hopen
    rcases trackCall_socket hcareful with ⟨-, hbefore⟩ | hopened
    · exact h.idle (hbefore hopen)
    · have hempty := hclean hopened
      simp only [fresh, Bool.and_eq_true, decide_eq_true_eq] at hempty
      exact ⟨hempty.1.1, hempty.1.2⟩

theorem trackRead_careful {env : Environment} {connection : HAMConnection} {ledger : Ledger}
    {result : Option Bytes} (h : (trackRead env connection ledger result).careful = true) :
    ledger.careful = true := by
  unfold trackRead at h
  split at h
  · exact h
  · exact h
  · split_ifs at h
    · exact h
    · exact trackLoop_careful h

theorem trackRead_settled {env : Environment} {connection after : HAMConnection} {ledger : Ledger}
    {result : Option Bytes} {events : List Event}
    (hread : hamConnectionReadData env connection result = .ok (after, events))
    (hcareful : (trackRead env connection ledger result).careful = true)
    (h : Settled connection ledger) : Settled after (trackRead env connection ledger result) := by
  rcases readData_cases hread with ⟨hfd, rfl, -⟩ | ⟨-, rfl, rfl, -⟩ | ⟨hfd, data, n, rfl, hne, -, hloop⟩
  · rwa [trackRead_closed env hfd]
  · exact h.toReading.disconnect
  · rw [trackRead_loop env hfd ledger hne] at hcareful ⊢
    exact trackLoop_settled env ledger.socket hne (Nat.zero_le _) (.inl (h.idle hfd)) hloop hcareful
      h.toReading (.inl rfl)

/-- Every run keeps the ledger settled as long as it is careful. -/
theorem settled_of_run {env : Environment} {actions : List Action}
    {state : HAMConnection × Ledger}
    (h : System.Run (system env) (fun _ _ => true) actions state) :
    state.2.careful = true → Settled state.1 state.2 := by
  refine System.Run.invariant (I := fun _ state => state.2.careful = true →
    Settled state.1 state.2) ?_ ?_ h
  · exact fun _ => ⟨⟨⟨rfl, rfl, fun _ _ => rfl, by simp [system]⟩, .inl rfl, rfl⟩,
      fun hopen => absurd rfl hopen⟩
  · intro past state action next hstate _ _ hstep hcareful
    obtain ⟨connection, ledger⟩ := state
    cases action with
    | call call =>
      cases hstep
      exact trackCall_settled hcareful (hstate (trackCall_balanced hcareful).1)
    | read result =>
      simp only [system] at hstep
      cases hread : hamConnectionReadData env connection result with
      | error halt => simp [hread] at hstep
      | ok outcome =>
        rw [hread] at hstep
        cases hstep
        exact trackRead_settled hread hcareful (hstate (trackRead_careful hcareful))

/-- In every run whose connects find nothing left of an earlier socket, and whose replies find a
queued handler, a handler is called with the reply to its own request, which came over the socket
of that request. -/
theorem replies_matched (env : Environment) (actions : List Action)
    (state : HAMConnection × Ledger)
    (h : System.Run (system env) (fun _ _ => true) actions state)
    (hcareful : state.2.careful = true) : ∀ delivery ∈ state.2.log, delivery.Matched :=
  (settled_of_run h hcareful).log

/-- Behind the module table a further request is sent. -/
def asksFurther : Environment
  | .connectResponse, _, _ => [.send modulesRequest (some (.client 7)) 1]
  | _, _, _ => []

/-- A module list of one module. -/
def listReply : Bytes :=
  bytes "HTTP/1.1 200 OK\r\nContent-Length: 45\r\n\r\n" ++
    bytes "uri;name;desc;type;need_auth\n/;Root;Page;0;0;\r\n"

/-- Two requests, each answered. -/
def answeredActions : List Action :=
  [.call (.connect (.connected 4 (some 0))), .read (some listReply), .read (some listReply)]

theorem replies_matched_answered :
    ∃ state, System.Run (system asksFurther) (fun _ _ => true) answeredActions state ∧
      state.2.log.length = 2 ∧ ∀ delivery ∈ state.2.log, delivery.Matched := by
  have hexec : (System.exec (system asksFurther) (fun _ _ => true) (system asksFurther).start
      answeredActions).any
      (fun state => state.2.careful && decide (state.2.log.length = 2)) = true := by
    decide +kernel
  obtain ⟨state, hrun, hstate⟩ := System.exists_run_of_exec hexec
  simp only [Bool.and_eq_true, decide_eq_true_eq] at hstate
  exact ⟨state, hrun, hstate.2, replies_matched asksFurther answeredActions state hrun hstate.1⟩

/-- The second request is not answered before the socket is closed and a new one is opened. -/
def reconnectActions : List Action :=
  [.call (.connect (.connected 4 (some 0))), .read (some listReply), .call .disconnect,
    .call (.connect (.connected 5 (some 1))), .read (some listReply)]

/-- The first reply over the second socket goes to the handler of the second request over the
first. -/
theorem not_matched_reconnect :
    ∃ state, System.Run (system asksFurther) (fun _ _ => true) reconnectActions state ∧
      ∃ delivery ∈ state.2.log, delivery.call.1 = .client 7 ∧ delivery.owner = some (1, 1) ∧
        delivery.answer = (2, 0) ∧ ¬delivery.Matched := by
  have hexec : (System.exec (system asksFurther) (fun _ _ => true) (system asksFurther).start
      reconnectActions).any
      (fun state => state.2.log.any fun delivery => decide (delivery.call.1 = .client 7 ∧
        delivery.owner = some (1, 1) ∧ delivery.answer = (2, 0) ∧ ¬delivery.Matched)) = true := by
    decide +kernel
  obtain ⟨state, hrun, hstate⟩ := System.exists_run_of_exec hexec
  obtain ⟨delivery, hmem, hdelivery⟩ := List.any_eq_true.mp hstate
  exact ⟨state, hrun, delivery, hmem, of_decide_eq_true hdelivery⟩

end Hamlog.Library
