import Hamlog.Library.Parser
import Hamlog.Library.Request
import Hamlog.Server.Responders.Login

/-! # Accounts of the client library

`ham_account_register`, `ham_account_login` and the handler that answers the
challenge of the server. `ham_login_digest_md5_parse` is the loop of the
server's `digest_md5_parse` over a list instead of a map. `md5_get_hash_hex` is
a parameter.
-/
namespace Hamlog.Library
open Foundation Wire

def hamAccountRegister (username password : Bytes) : HAMRequest where
  method := bytes "GET"
  uri := bytes "/register"
  headers := [⟨bytes "username", username⟩, ⟨bytes "password", password⟩]

def hamAccountLogin : HAMRequest where
  method := bytes "GET"
  uri := bytes "/login"

/-- The value and then the name of a token get in front of the list; a name without a value gets
there with a null pointer. -/
def insertToken (ret : List (Option Bytes)) (token : Bytes) : List (Option Bytes) :=
  let name := token.takeWhile (· ≠ ch '=')
  if name.isEmpty then ret
  else
    match token.dropWhile (· ≠ ch '=') with
    | [] => some name :: none :: ret
    | _ :: value => some name :: some (Server.Login.trimValue value) :: ret

def hamLoginDigestMd5Parse (digest : Bytes) : List (Option Bytes) :=
  (Server.Login.digestTokens digest.length digest).foldl insertToken []

/-- The pointers to the values; `none` is what they are before, which for `opaque` only is the null
pointer. -/
structure Challenge where
  qop : Option Bytes := none
  realm : Option Bytes := none
  nonce : Option Bytes := none
  opaqueValue : Option Bytes := none
  deriving DecidableEq

def Challenge.set (challenge : Challenge) (name value : Bytes) : Challenge :=
  if name = bytes "qop" then { challenge with qop := some value }
  else if name = bytes "realm" then { challenge with realm := some value }
  else if name = bytes "nonce" then { challenge with nonce := some value }
  else if name = bytes "opaque" then { challenge with opaqueValue := some value }
  else challenge

/-- Names and values are popped up to the first null pointer. -/
def popChallenge : List (Option Bytes) → Challenge → Challenge
  | some name :: some value :: list, challenge => popChallenge list (challenge.set name value)
  | _, challenge => challenge

/-- What the handler of the first reply does: it sends the response, gives up, tells that the
session is logged in, or reads what it never wrote. -/
inductive LoginStep where
  | send (request : HAMRequest)
  | stop
  | loggedIn
  | undefined
  deriving DecidableEq

variable (md5 : Bytes → Bytes)

def loginResponse (username password realm nonce : Bytes) : Bytes :=
  let ha1 := md5 (username ++ bytes ":" ++ realm ++ bytes ":" ++ password)
  let ha2 := md5 (bytes "GET:/login")
  md5 (ha1 ++ bytes ":" ++ nonce ++ bytes ":" ++ ha2)

/-- The text of the header before it is cut to its buffer. -/
def authorizationText (username realm response opaqueValue : Bytes) : Bytes :=
  bytes "Digest username=\"" ++ username ++ bytes "\"," ++
    bytes "realm=\"" ++ realm ++ bytes "\"," ++
    bytes "nonce=\"dcd98b7102dd2f0e8b11d0f600bfb0c093\"," ++
    bytes "uri=\"/login\"," ++ bytes "qop=auth," ++
    bytes "response=\"" ++ response ++ bytes "\"," ++
    bytes "opaque=\"" ++ opaqueValue ++ bytes "\")"

/-- The second request of a login; `snprintf` stores at most 511 bytes of the header. -/
def loginRequest (authorization : Bytes) : HAMRequest :=
  { hamAccountLogin with headers := [⟨bytes "Authorization", authorization.take 511⟩] }

def hamLoginHandleGetResponse1 (username password : Bytes) (reply : HAMReply) : LoginStep :=
  if reply.status ≠ 401 then .loggedIn
  else
    match hamReplyGetHeader reply (bytes "WWW-Authenticate") with
    | none => .undefined
    | some auth =>
      if auth.length < 7 then .undefined
      else
        match popChallenge (hamLoginDigestMd5Parse (auth.drop 7)) {} with
        | ⟨some _, some realm, some nonce, some opaqueValue⟩ =>
          .send (loginRequest (authorizationText username realm
            (loginResponse md5 username password realm nonce) opaqueValue))
        | ⟨some _, some _, some _, none⟩ => .stop
        | _ => .undefined

end Hamlog.Library
