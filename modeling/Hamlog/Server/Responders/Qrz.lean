import Hamlog.Server.ModuleManager
import Hamlog.Server.Session

/-! # The QRZ module

A `/qrz` request starts an exchange with the service qrz.com and is answered
when the exchange ends. The exchange is a chain of asynchronous operations on
one socket; the data of the session's exchange are kept with the session. The
parser of the documents and the table of QRZ accounts are parameters, and so
are the other modules, which answer at once.
-/
namespace Hamlog.Server
open Foundation Wire

/-- The elements of a document that the module looks at, with their texts. -/
structure Document where
  error : Option Bytes := none
  key : Option Bytes := none
  callsign : Option (Bytes × Bytes) := none

/-- `QRZModuleData`; `reply` is the number of a reply of the session, or null. -/
structure QRZModuleData where
  key : Bytes := []
  call : Bytes := []
  request : Bytes := []
  response : Bytes := []
  reply : Option ℕ := none
  deriving DecidableEq

/-- An asynchronous operation on the socket to qrz.com that is started and not completed. -/
inductive Operation where
  | connect | write | read
  deriving DecidableEq, Repr

/-- How an operation completes: with or without an error, behind the given part of its work. `stale`
is what the stream buffer holds behind the bytes that were received. -/
structure Completion where
  failed : Bool := false
  sent : ℕ := 0
  received : Bytes := []
  stale : Bytes := []

/-- What the session holds for the module, the operations under way, and the rest of the server. -/
structure QRZState (ε : Type*) where
  data : Option QRZModuleData := none
  pending : List Operation := []
  env : ε

/-- What the module uses: the document parser, and for the user of the session the name and the
password in `qrz_users`, an insertion and an update of them. -/
structure QRZ (ε : Type*) where
  parse : Bytes → Document
  select : ε → Option (Bytes × Bytes)
  insert : ε → Bytes → Bytes → Bool × ε
  update : ε → Bytes → Bytes → Bool × ε

def requestTail : Bytes :=
  bytes " HTTP/1.0\r\nHost: www.qrz.com\r\nAccept: */*\r\nConnection: close\r\n\r\n"

def callsignRequest (key call : Bytes) : Bytes :=
  bytes "GET http://www.qrz.com/xml?s=" ++ key ++ bytes ";callsign=" ++ call ++ requestTail

def keyRequest (username password : Bytes) : Bytes :=
  bytes "GET http://www.qrz.com/xml?username=" ++ username ++ bytes ";password=" ++ password ++
    bytes ";agent=hamlog" ++ requestTail

/-- What stands behind the first blank line. -/
def afterBlankLine : Bytes → Option Bytes
  | [] => none
  | c :: rest =>
    if (c :: rest).take 4 = crlf ++ crlf then some (rest.drop 3) else afterBlankLine rest

/-- `xml.substr(xml.find("\r\n\r\n") + 4)`: the place of a missing blank line is `-1`. -/
def skipHeader (xml : Bytes) : Bytes := (afterBlankLine xml).getD (xml.drop 3)

namespace QRZ
variable {ε : Type*} (qrz : QRZ ε)

/-- `/qrz`: the request for a key or for the call sign is prepared, and a connection is started. -/
def askQRZ (id : ℕ) (state : QRZState ε) (reply : Reply) (call : Bytes) : Reply × QRZState ε :=
  let data := state.data.getD {}
  if data.key ≠ [] then
    (reply.setAsync true,
      { state with
        data := some { data with
          call
          reply := some id
          request := data.request ++ callsignRequest data.key call }
        pending := state.pending ++ [.connect] })
  else
    match qrz.select state.env with
    | none =>
      ((reply.setStatus .unauthorized).setContent
        (bytes "Register your QRZ account before querying the database"),
        { state with data := some data })
    | some (username, password) =>
      (reply.setAsync true,
        { state with
          data := some { data with
            call
            reply := some id
            request := data.request ++ keyRequest username password }
          pending := state.pending ++ [.connect] })

def addUser (state : QRZState ε) (request : Request) (reply : Reply) : Reply × QRZState ε :=
  let username := request.getHeader (bytes "username")
  let password := request.getHeader (bytes "password")
  let inserted := qrz.insert state.env username password
  if inserted.1 then (reply.setContent (bytes "Registered"), { state with env := inserted.2 })
  else
    let updated := qrz.update inserted.2 username password
    if updated.1 then (reply.setContent (bytes "Updated"), { state with env := updated.2 })
    else ((reply.setStatus .badRequest).setContent (bytes "Bad data or SQL error"),
      { state with env := updated.2 })

def sendUsername (state : QRZState ε) (reply : Reply) : Reply :=
  match qrz.select state.env with
  | none => reply.setContent []
  | some (username, _) => reply.setContent username

def handleRequest (id : ℕ) (state : QRZState ε) (request : Request) (reply : Reply) :
    Bool × Reply × QRZState ε :=
  if request.uri = bytes "/qrz" then (true, qrz.askQRZ id state reply request.content)
  else if request.uri = bytes "/qrz/register" then (true, qrz.addUser state request reply)
  else if request.uri = bytes "/qrz/username" then (true, qrz.sendUsername state reply, state)
  else (false, reply, state)

def responder : Responder ℕ (QRZState ε) where
  uri := bytes "/qrz"
  name := bytes "QRZ module"
  type := .callinfo
  handleRequest := qrz.handleRequest

/-- Another module: it does not know the data of this one, and its reply stays synchronous. -/
def besides (other : Responder Unit ε) : Responder ℕ (QRZState ε) where
  uri := other.uri
  name := other.name
  description := other.description
  type := other.type
  needAuthentication := other.needAuthentication
  handleRequest _ state request reply :=
    let handled := other.handleRequest () state.env request reply
    (handled.1, handled.2.1.setAsync reply.async, { state with env := handled.2.2 })

variable (others : List (Responder Unit ε)) (authenticated : ε → Bool)

def manager : ModuleManager ℕ (QRZState ε) where
  modules := qrz.responder :: others.map besides
  isAuthenticated _ state := authenticated state.env

/-- The request handler of a session. -/
def requestHandler : RequestHandler (QRZState ε) := fun state id request =>
  ((qrz.manager others authenticated).answer id state request).swap

/-! ## Completion handlers -/

/-- The start of a further operation. -/
def begin (session : Session (QRZState ε)) (data : QRZModuleData) (operation : Operation) :
    Session (QRZState ε) :=
  { session with
    modules := { session.modules with
      data := some data
      pending := session.modules.pending ++ [operation] } }

/-- The reply with the number `id` is filled, and the call sign is cleared. -/
def fillReply (session : Session (QRZState ε)) (data : QRZModuleData) (id : ℕ)
    (fill : Reply → Reply) : Session (QRZState ε) :=
  { session with
    modules := { session.modules with data := some { data with call := [] } }
    replies := session.replies.modify id fill }

/-- `data->reply.reset()` -/
def resetReply (session : Session (QRZState ε)) : Session (QRZState ε) :=
  { session with
    modules := { session.modules with
      data := session.modules.data.map fun data => { data with reply := none } } }

/-- The end of an exchange: the reply that the data point to is filled, the reply that the session
waits for is sent, and then the pointer is reset. Nothing comes of it through a null pointer. -/
def finish (session : Session (QRZState ε)) (data : QRZModuleData) (fill : Reply → Reply) :
    Option (Session (QRZState ε)) :=
  match data.reply with
  | none => none
  | some id =>
    ((fillReply session data id fill).sendAsyncReply
      (qrz.requestHandler others authenticated)).map resetReply

def handleQRZConnected (session : Session (QRZState ε)) (data : QRZModuleData)
    (completion : Completion) : Option (Session (QRZState ε)) :=
  if completion.failed then
    qrz.finish others authenticated session data fun reply =>
      (reply.setStatus .badRequest).setContent (bytes "Can't connect QRZ.com server")
  else some (begin session data .write)

def handleQRZWriteRequest (session : Session (QRZState ε)) (data : QRZModuleData)
    (completion : Completion) : Option (Session (QRZState ε)) :=
  if completion.failed then
    qrz.finish others authenticated session
      { data with request := data.request.drop completion.sent } fun reply =>
        (reply.setStatus .badRequest).setContent (bytes "Can't send data to QRZ.com server")
  else some (begin session { data with request := [] } .read)

/-- The document of a completed read. The text is taken from the pointer to the buffer up to a zero
byte, which may stand behind the received bytes. Not modelled are the exception of `substr` for a
text of less than three bytes and the null pointer of `GetText` for an element without a text. -/
def document (data : QRZModuleData) (completion : Completion) : Document :=
  qrz.parse (skipHeader (cstr (data.response ++ completion.received ++ completion.stale)))

def handleQRZReadKey (session : Session (QRZState ε)) (data : QRZModuleData)
    (completion : Completion) : Option (Session (QRZState ε)) :=
  if completion.failed then
    qrz.finish others authenticated session
      { data with response := data.response ++ completion.received } fun reply =>
        (reply.setStatus .badRequest).setContent
          (bytes "Error receiving data from QRZ.com server")
  else
    let document := qrz.document data completion
    let data := { data with response := [] }
    match document.error with
    | some error =>
      qrz.finish others authenticated session data fun reply =>
        (reply.setStatus .unauthorized).setContent error
    | none =>
      let data := { data with key := document.key.getD data.key }
      match document.callsign with
      | some (fname, name) =>
        qrz.finish others authenticated session data fun reply =>
          reply.setContent (bytes "fname;name\n" ++ fname ++ bytes ";" ++ name)
      | none =>
        some (begin session
          { data with request := data.request ++ callsignRequest data.key data.call } .connect)

/-- An operation under way is taken for completion. -/
def take (session : Session (QRZState ε)) (index : ℕ) : Session (QRZState ε) :=
  { session with
    modules := { session.modules with pending := session.modules.pending.eraseIdx index } }

def complete (session : Session (QRZState ε)) (index : ℕ) (completion : Completion) :
    Option (Session (QRZState ε)) :=
  let rest := take session index
  match session.modules.data, session.modules.pending[index]? with
  | some data, some .connect => qrz.handleQRZConnected others authenticated rest data completion
  | some data, some .write => qrz.handleQRZWriteRequest others authenticated rest data completion
  | some data, some .read => qrz.handleQRZReadKey others authenticated rest data completion
  | _, _ => none

/-- Whether a completion ends the exchange, and so answers the request. -/
def ends (session : Session (QRZState ε)) (index : ℕ) (completion : Completion) : Bool :=
  completion.failed ||
    match session.modules.data, session.modules.pending[index]? with
    | some data, some .read =>
      let document := qrz.document data completion
      document.error.isSome || document.callsign.isSome
    | _, _ => false

end QRZ
end Hamlog.Server
