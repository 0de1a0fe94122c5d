import Hamlog.Library.Parser
import Hamlog.Library.Request

/-! # Connections of the client library

`HAMConnection` and the functions of `connection.c` that open it, send over it
and read from it. The effects on the outside (signals, handler calls, socket
and event loop) are returned as a list of events. Handlers are code of the
user interface: an environment says which functions of the connection each
handler calls. The module table is not part of this model.
-/
namespace Hamlog.Library
open Foundation Wire

inductive Signal where
  | connected | disconnected | requestSent | replyReceived
  deriving DecidableEq, Repr

/-- The code a reply is passed to: `ham_connect_handle_response` or a function of the caller. -/
inductive Handler where
  | connectResponse
  | client (id : ℕ)
  deriving DecidableEq, Repr

/-- `none` is a NULL handler. -/
structure HandlerTuple where
  handler : Option Handler
  uiData : ℕ
  deriving DecidableEq, Repr

inductive Event where
  | signal (name : Signal) (data : Bytes)
  | handle (handler : Handler) (reply : HAMReply) (uiData : ℕ)
  | write (fd : ℤ) (data : Bytes)
  | close (fd : ℤ)
  | inputAdd (fd : ℤ)
  | inputRemove (handle : Option ℕ)
  deriving DecidableEq, Repr

structure HAMConnection where
  fd : ℤ := -1
  inputHandle : Option ℕ := none
  reply : HAMReply := {}
  parser : HAMParser := {}
  handlers : List HandlerTuple := []
  deriving DecidableEq, Repr

/-- How the system answers a connection attempt; an error carries the text of `strerror`. -/
inductive ConnectOutcome where
  | lookupFailed (error : Bytes)
  | socketFailed (error : Bytes)
  | connectFailed (fd : ℤ) (error : Bytes)
  | connected (fd : ℤ) (handle : Option ℕ)

/-- What a handler may ask of the connection. -/
inductive Call where
  | send (request : HAMRequest) (handler : Option Handler) (uiData : ℕ)
  | disconnect
  | connect (outcome : ConnectOutcome)

/-- The calls each handler makes when it is given a reply. They depend on its `ui_data` and the
reply alone: a handler keeps no state of its own. -/
abbrev Environment := Handler → ℕ → HAMReply → List Call

def hamConnectionSend (connection : HAMConnection) (request : HAMRequest)
    (handler : Option Handler) (uiData : ℕ) : HAMConnection × List Event :=
  if connection.fd = -1 then (connection, [])
  else
    let data := hamRequestGetData request
    ({ connection with handlers := connection.handlers ++ [⟨handler, uiData⟩] },
      [.signal .requestSent data, .write connection.fd data])

/-- The descriptor is cleared before it is closed. -/
def hamConnectionDisconnect (connection : HAMConnection) : HAMConnection × List Event :=
  if connection.fd = -1 then (connection, [])
  else
    ({ connection with fd := -1, inputHandle := none },
      [.inputRemove connection.inputHandle, .close (-1)])

def modulesRequest : HAMRequest where
  method := bytes "GET"
  uri := bytes "/modules"

def hamConnectionConnect (connection : HAMConnection) (outcome : ConnectOutcome) :
    HAMConnection × List Event :=
  if connection.fd ≠ -1 then (connection, [])
  else
    match outcome with
    | .lookupFailed error => (connection, [.signal .disconnected error])
    | .socketFailed error => ({ connection with fd := -1 }, [.signal .disconnected error])
    | .connectFailed fd error => ({ connection with fd }, [.signal .disconnected error])
    | .connected fd handle =>
      let sent := hamConnectionSend { connection with fd, inputHandle := handle } modulesRequest
        (some .connectResponse) 0
      (sent.1, .inputAdd fd :: sent.2)

def applyCall (connection : HAMConnection) : Call → HAMConnection × List Event
  | .send request handler uiData => hamConnectionSend connection request handler uiData
  | .disconnect => hamConnectionDisconnect connection
  | .connect outcome => hamConnectionConnect connection outcome

def applyCalls (connection : HAMConnection) : List Call → HAMConnection × List Event
  | [] => (connection, [])
  | call :: calls =>
    let first := applyCall connection call
    let others := applyCalls first.1 calls
    (others.1, first.2 ++ others.2)

/-- A finished reply goes to the first queued handler, and a new reply is started. -/
def deliver (env : Environment) (connection : HAMConnection) : HAMConnection × List Event :=
  let received := Event.signal .replyReceived (hamReplyGetDump connection.reply)
  match connection.handlers with
  | [] => ({ connection with reply := {} }, [received])
  | tuple :: handlers =>
    match tuple.handler with
    | none => ({ connection with handlers, reply := {} }, [received])
    | some handler =>
      let answered := applyCalls { connection with handlers }
        (env handler tuple.uiData connection.reply)
      ({ answered.1 with reply := {} },
        received :: .handle handler connection.reply tuple.uiData :: answered.2)

/-- What follows a parse that consumed something. -/
def handleParsed (env : Environment) (connection : HAMConnection) : HAMConnection × List Event :=
  if connection.reply.finished then deliver env connection else (connection, [])

/-- Why a read does not return: an access outside a buffer, or (never, by `readLoop_fuel`) too
little fuel. -/
inductive Halt where
  | outOfBounds | outOfFuel
  deriving DecidableEq, Repr

/-- The loop over one read of `data`, at `parsedTotal`. It also returns the final
`parsed_total`. -/
def readLoop (env : Environment) : ℕ → HAMConnection → Bytes → ℕ →
    Except Halt (HAMConnection × ℕ × List Event)
  | 0, _, _, _ => .error .outOfFuel
  | fuel + 1, connection, data, parsedTotal =>
    if parsedTotal = data.length - 1 then .ok (connection, parsedTotal, [])
    else
      match hamParserParse connection.parser connection.reply (data.drop parsedTotal) with
      | none => .error .outOfBounds
      | some (parsed, parser, reply) =>
        let connection := { connection with parser, reply }
        if parsed = 0 then
          let closed := hamConnectionDisconnect connection
          .ok (closed.1, parsedTotal,
            .signal .disconnected (bytes "Server sent mallformed data") :: closed.2)
        else
          let delivered := handleParsed env connection
          match readLoop env fuel delivered.1 data (parsedTotal + parsed) with
          | .error halt => .error halt
          | .ok (connection, parsedTotal, events) =>
            .ok (connection, parsedTotal, delivered.2 ++ events)

/-- `ham_connection_read_data` when `read` returns the bytes, or fails (`none`). The zero behind
the bytes is stored in a buffer of 65535 places. -/
def hamConnectionReadData (env : Environment) (connection : HAMConnection)
    (read : Option Bytes) : Except Halt (HAMConnection × List Event) :=
  if connection.fd = -1 then .ok (connection, [])
  else
    match read with
    | none => .error .outOfBounds
    | some [] =>
      let closed := hamConnectionDisconnect connection
      .ok (closed.1, .signal .disconnected (bytes "Server closed the connection") :: closed.2)
    | some data =>
      if data.length < 65535 then
        match readLoop env (data.length + 1) connection data 0 with
        | .error halt => .error halt
        | .ok (connection, _, events) => .ok (connection, events)
      else .error .outOfBounds

/-- Successive reads. -/
def readAll (env : Environment) (connection : HAMConnection) :
    List Bytes → Except Halt (HAMConnection × List Event)
  | [] => .ok (connection, [])
  | data :: reads =>
    match hamConnectionReadData env connection (some data) with
    | .error halt => .error halt
    | .ok (connection, events) =>
      match readAll env connection reads with
      | .error halt => .error halt
      | .ok (connection, events') => .ok (connection, events ++ events')

/-- The replies passed to handlers, in order. -/
def deliveries (events : List Event) : List (Handler × HAMReply × ℕ) :=
  events.filterMap fun
    | .handle handler reply uiData => some (handler, reply, uiData)
    | _ => none

@[simp] theorem deliveries_nil : deliveries [] = [] := rfl

@[simp] theorem deliveries_append (xs ys : List Event) :
    deliveries (xs ++ ys) = deliveries xs ++ deliveries ys :=
  List.filterMap_append

theorem hamConnectionDisconnect_fd (connection : HAMConnection) :
    (hamConnectionDisconnect connection).1.fd = -1 := by
  unfold hamConnectionDisconnect
  split_ifs with h
  · exact h
  · rfl

theorem deliveries_disconnect (connection : HAMConnection) :
    deliveries (hamConnectionDisconnect connection).2 = [] := by
  unfold hamConnectionDisconnect
  split_ifs <;> rfl

/-- A closed connection reads nothing. -/
theorem readAll_closed (env : Environment) {connection : HAMConnection}
    (h : connection.fd = -1) (reads : List Bytes) :
    readAll env connection reads = .ok (connection, []) := by
  induction reads with
  | nil => rfl
  | cons data reads ih => simp [readAll, hamConnectionReadData, h, ih]

theorem hamConnectionReadData_some {env : Environment} {connection : HAMConnection}
    (h : connection.fd ≠ -1) {data : Bytes} (hne : data ≠ []) (hlen : data.length < 65535) :
    hamConnectionReadData env connection (some data) =
      match readLoop env (data.length + 1) connection data 0 with
      | .error halt => .error halt
      | .ok (connection, _, events) => .ok (connection, events) := by
  cases data with
  | nil => exact absurd rfl hne
  | cons b data =>
    unfold hamConnectionReadData
    simp only [h, if_false, hlen, if_true]

/-- A parse never passes the end of its data, and stops before it when it finishes a reply. -/
theorem parseFrom_le {parsed n : ℕ} {p q : HAMParser} {r s : HAMReply} {data : Bytes}
    (h : parseFrom parsed p r data = some (n, q, s)) : n ≤ parsed + data.length := by
  rw [parseFrom_eq] at h
  cases hp : (decoder declared).parse (p, r) data with
  | more t => simp only [hp, Option.some.injEq, Prod.mk.injEq] at h; omega
  | done t rest => simp only [hp, Option.some.injEq, Prod.mk.injEq] at h; omega
  | fail t stop rest =>
    cases stop with
    | fault => simp [hp] at h
    | rejected => simp only [hp, Option.some.injEq, Prod.mk.injEq] at h; omega

/-- Every turn of the loop consumes a byte, so the fuel given to it never runs out. -/
theorem readLoop_fuel (env : Environment) (fuel : ℕ) (connection : HAMConnection) (data : Bytes)
    (parsedTotal : ℕ) (h : data.length - parsedTotal < fuel) :
    readLoop env fuel connection data parsedTotal ≠ .error .outOfFuel := by
  induction fuel generalizing connection parsedTotal with
  | zero => omega
  | succ fuel ih =>
    rw [readLoop]
    by_cases hend : parsedTotal = data.length - 1
    · simp [hend]
    rw [if_neg hend]
    cases hp : hamParserParse connection.parser connection.reply (data.drop parsedTotal) with
    | none => simp
    | some result =>
      obtain ⟨parsed, parser, reply⟩ := result
      by_cases hzero : parsed = 0
      · simp [hzero]
      have hle : parsed ≤ (data.drop parsedTotal).length := by simpa using parseFrom_le hp
      rw [List.length_drop] at hle
      have hloop := ih (handleParsed env { connection with parser, reply }).1
        (parsedTotal + parsed) (by omega)
      simp only [hzero, if_false]
      cases hrec : readLoop env fuel _ data (parsedTotal + parsed) with
      | error halt =>
        rw [hrec] at hloop
        simpa using hloop
      | ok result => simp

end Hamlog.Library
