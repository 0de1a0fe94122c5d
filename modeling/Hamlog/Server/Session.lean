import Hamlog.Foundation.Runs
import Hamlog.Server.Reply
import Hamlog.Server.RequestParser

/-! # Sessions of the server

`Session` reads requests from its socket, passes them to the request handler
and writes the replies. A reply is a shared pointer in the source; here it is
the number of the reply among all replies of the session, and the replies
themselves are kept in the session. The state of the modules is a type of its
own. A write is taken to be complete when it is started, in the order in which
the writes are started.
-/
namespace Hamlog.Server
open Foundation Wire

/-- `buffer` is the part of `m_buffer` that the last read filled: its length is the member
`bytes`. `reads` counts the reads that are started and not finished, and `stops` the calls of
`stop`. `dispatched` and `written` record what was given to the request handler and what was
written to the socket. -/
structure Session (μ : Type*) where
  parser : RequestParser.State := .methodStart
  req : Request := {}
  buffer : Bytes := []
  parsedTotal : ℕ := 0
  currentReply : Option ℕ := none
  replies : List Reply := []
  modules : μ
  reads : ℕ := 0
  stops : ℕ := 0
  dispatched : List Request := []
  written : List (ℕ × Bytes) := []

/-- `RequestHandler::handleRequest`: the modules are given the number of the reply they fill. -/
abbrev RequestHandler (μ : Type*) := μ → ℕ → Request → μ × Reply

def bufferSize : ℕ := 8192

namespace Session
variable {μ : Type*} (handler : RequestHandler μ)

def startRead (session : Session μ) : Session μ :=
  { session with parsedTotal := 0, reads := session.reads + 1 }

def stop (session : Session μ) : Session μ := { session with stops := session.stops + 1 }

/-- `async_write` of `reply->toString()`. -/
def writeReply (session : Session μ) (id : ℕ) : Session μ :=
  let printed := (session.replies.getD id {}).toString
  { session with
    replies := session.replies.set id printed.2
    written := session.written ++ [(id, printed.1)] }

/-- A finished request goes to the request handler, and a new request is started. -/
def dispatch (session : Session μ) : Session μ :=
  let handled := handler session.modules session.replies.length session.req
  { session with
    modules := handled.1
    replies := session.replies ++ [handled.2]
    dispatched := session.dispatched ++ [session.req]
    req := {} }

/-- What a parse did: the cursor moves by the parsed bytes. -/
def advance (session : Session μ) (parsed : ℕ × RequestParser.State × Request) : Session μ :=
  { session with
    parsedTotal := session.parsedTotal + parsed.1
    parser := parsed.2.1
    req := parsed.2.2 }

/-- The loop of `handleRead`, with fuel for its turns. -/
def readLoop : ℕ → Session μ → Session μ
  | 0, session => session
  | fuel + 1, session =>
    if session.parsedTotal = session.buffer.length then session.startRead
    else
      let parsed := RequestParser.parse session.parser session.req
        (session.buffer.drop session.parsedTotal)
      let session := session.advance parsed
      if parsed.1 = 0 then session.stop.startRead
      else if session.req.finished then
        let id := session.replies.length
        let session := session.dispatch handler
        if (session.replies.getD id {}).async then { session with currentReply := some id }
        else readLoop fuel (session.writeReply id)
      else readLoop fuel session

/-- `handleRead` without an error, behind the assignment to `bytes`. Every turn of its loop
consumes a byte. -/
def handleRead (session : Session μ) : Session μ :=
  session.readLoop handler (session.buffer.length - session.parsedTotal + 1)

def readDone (session : Session μ) (data : Bytes) : Session μ :=
  { session with reads := session.reads - 1, buffer := data }.handleRead handler

def sendCurrent (session : Session μ) (id : ℕ) : Session μ :=
  { session.writeReply id with currentReply := none }

/-- `sendAsyncReply`; there is no result when no reply is waited for. -/
def sendAsyncReply (session : Session μ) : Option (Session μ) :=
  match session.currentReply with
  | none => none
  | some id => some ((session.sendCurrent id).handleRead handler)

theorem sendAsyncReply_some {session : Session μ} {id : ℕ} (h : session.currentReply = some id) :
    session.sendAsyncReply handler = some ((session.sendCurrent id).handleRead handler) := by
  rw [sendAsyncReply, h]

/-! ## The loop -/

open RequestParser

def ahead (session : Session μ) : Bytes := session.buffer.drop session.parsedTotal

/-- The session behind a request that ends `count` bytes behind the cursor. -/
def afterRequest (session : Session μ) (count : ℕ) (t : State × Request) : Session μ :=
  (session.advance (count, t)).dispatch handler

theorem afterRequest_total_le {session : Session μ} {data rest : Bytes} {t : State × Request}
    (hdata : session.ahead = data ++ rest)
    (hp : decoder.parse (session.parser, session.req) data = .done t []) :
    (session.afterRequest handler data.length t).parsedTotal ≤
      (session.afterRequest handler data.length t).buffer.length := by
  have hpos := decoder.done_rest_length hp
  have hlen := congrArg List.length hdata
  simp only [ahead, List.length_drop, List.length_append, List.length_nil] at hlen hpos
  simp only [afterRequest, dispatch, advance]
  omega

/-- What holds of the session at each turn of the loop (`Turn`), and of the session it leaves
(`Left`), by what the decoder makes of the bytes ahead. -/
structure LoopRule (Turn Left : Session μ → Prop) : Prop where
  last : ∀ {session}, Turn session → session.ahead = [] → Left session.startRead
  reject : ∀ {session t e rest}, Turn session →
    decoder.parse (session.parser, session.req) session.ahead = .fail t e rest →
    Left (session.advance (0, t)).stop.startRead
  more : ∀ {session t}, Turn session → session.ahead ≠ [] →
    decoder.parse (session.parser, session.req) session.ahead = .more t →
    Turn (session.advance (session.ahead.length, t))
  async : ∀ {session data rest t}, Turn session → session.ahead = data ++ rest →
    decoder.parse (session.parser, session.req) data = .done t [] →
    ((session.afterRequest handler data.length t).replies.getD session.replies.length {}).async →
    Left { session.afterRequest handler data.length t with
      currentReply := some session.replies.length }
  sync : ∀ {session data rest t}, Turn session → session.ahead = data ++ rest →
    decoder.parse (session.parser, session.req) data = .done t [] →
    ((session.afterRequest handler data.length t).replies.getD
      session.replies.length {}).async = false →
    Turn ((session.afterRequest handler data.length t).writeReply session.replies.length)

variable {handler}

theorem LoopRule.readLoop {Turn Left : Session μ → Prop} (rule : LoopRule handler Turn Left)
    {fuel : ℕ} {session : Session μ} (h : Turn session) (hs : session.req.finished = false)
    (hle : session.parsedTotal ≤ session.buffer.length) (hfuel : session.ahead.length < fuel) :
    Left (session.readLoop handler fuel) := by
  induction fuel generalizing session with
  | zero => omega
  | succ fuel ih =>
    have hlen : session.ahead.length = session.buffer.length - session.parsedTotal :=
      List.length_drop
    rw [Session.readLoop]
    by_cases hend : session.parsedTotal = session.buffer.length
    · rw [if_pos hend]
      exact rule.last h (List.eq_nil_of_length_eq_zero (by omega))
    rw [if_neg hend, RequestParser.parse_eq]
    have hne : session.ahead ≠ [] := List.ne_nil_of_length_pos (by omega)
    have hunfinished : decoder.finished (session.parser, session.req) = false := hs
    cases hp : decoder.parse (session.parser, session.req) session.ahead with
    | fail t e rest =>
      rw [ahead] at hp
      simp only [hp, if_true]
      exact rule.reject h hp
    | more t =>
      have hf : t.2.finished = false := decoder.more_unfinished hunfinished hp
      have hnext := ih (rule.more h hne hp) hf (by simp only [advance]; omega)
        (by simp only [ahead, advance, List.length_drop]; omega)
      rw [ahead] at hp hlen hnext
      simp only [hp, hlen, advance, hf] at hnext ⊢
      rw [if_neg (by omega)]
      exact hnext
    | done t rest =>
      obtain ⟨data, hdata, hp'⟩ := decoder.done_split hp
      have hpos := decoder.done_rest_length hp'
      have hf : t.2.finished = true := (decoder.done_step hunfinished hp').1
      have hsum : data.length + rest.length = session.ahead.length := by
        rw [hdata, List.length_append]
      have hcount : session.ahead.length - rest.length = data.length := by omega
      rw [ahead] at hp hcount
      rw [List.length_nil] at hpos
      have hreq : (session.advance (data.length, t)).req.finished = true := hf
      simp only [hp, hcount]
      rw [if_neg (by omega), if_pos hreq]
      by_cases hasync : ((session.afterRequest handler data.length t).replies.getD
          session.replies.length {}).async = true
      · exact (congrArg Left (if_pos hasync)).mpr (rule.async h hdata hp' hasync)
      · have hnext := ih (rule.sync h hdata hp' (Bool.eq_false_iff.mpr hasync)) rfl
          (by simp only [afterRequest, dispatch, advance, writeReply]; omega)
          (by simp only [ahead, afterRequest, dispatch, advance, writeReply, List.length_drop]
              omega)
        exact (congrArg Left (if_neg hasync)).mpr hnext

end Session
end Hamlog.Server
