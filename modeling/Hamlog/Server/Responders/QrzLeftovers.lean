import Hamlog.Server.Responders.QrzAnswers

/-! # What a failed exchange leaves behind

The stream buffers of an exchange are kept with the session and used again by
its next one. A completed exchange empties both. A connection that fails leaves
the request in its buffer, a write that fails leaves what was not sent, and a
read that fails leaves what was received; the next `/qrz` request appends to it.
-/
namespace Hamlog.Server.QRZ
open Foundation Wire RequestParser

variable {ε : Type*} (qrz : QRZ ε) (others : List (Responder Unit ε)) (authenticated : ε → Bool)

/-- The request buffer holds one request: for the content of the `/qrz` request, or for a key with
an account of the database. -/
def OwnRequest (data : QRZModuleData) (content : Bytes) : Prop :=
  data.request = callsignRequest data.key content ∨
    ∃ env username password, qrz.select env = some (username, password) ∧
      data.request = keyRequest username password

/-- The exchange under way is that of the request the session waits for: only its requests are
written, its document is read into an empty buffer, and no other reply is filled from it. -/
def OwnExchange (session : Session (QRZState ε)) : Prop :=
  ∀ data operation, session.modules.data = some data → operation ∈ session.modules.pending →
    ∃ n request, session.currentReply = some n ∧ session.dispatched[n]? = some request ∧
      request.uri = bytes "/qrz" ∧ (∀ id, data.reply = some id → id = n) ∧
      (operation = .write → OwnRequest qrz data request.content) ∧
      (operation = .read → data.response = [])

/-- The buffers of the session hold nothing. -/
def Emptied (state : QRZState ε) : Prop :=
  ∀ data ∈ state.data, data.request = [] ∧ data.response = []

instance (state : QRZState ε) : Decidable (Emptied state) :=
  inferInstanceAs (Decidable (∀ data ∈ state.data, data.request = [] ∧ data.response = []))

/-- A failed operation that has left bytes in a buffer. -/
def leaves (session : Session (QRZState ε)) (index : ℕ) (completion : Completion) : Bool :=
  completion.failed &&
    match session.modules.data, session.modules.pending[index]? with
    | some _, some .connect => true
    | some data, some .write => completion.sent < data.request.length
    | some _, some .read => completion.received ≠ []
    | _, _ => false

/-- A `/qrz` request is only passed to the module when the failed exchanges before it have left
nothing in the buffers. -/
def tidy (session : Session (QRZState ε)) : Event ε → Bool
  | .read data => Emptied session.modules ∨ NoneBuffered { session with buffer := data }
  | .change _ => true
  | .complete index completion => !leaves session index completion || NoneBuffered session

/-! ## One request -/

/-- What is in the buffers at an operation of the exchange for some content. -/
def OwnStage (data : QRZModuleData) (content : Bytes) : Operation → Prop
  | .connect | .write => OwnRequest qrz data content ∧ data.response = []
  | .read => data.request = [] ∧ data.response = []

/-- The data of an exchange for the request with the number `n` at an operation. -/
structure Owns (data : QRZModuleData) (n : ℕ) (request : Request) (operation : Operation) :
    Prop where
  uri : request.uri = bytes "/qrz"
  call : data.call = request.content
  reply : ∀ id, data.reply = some id → id = n
  stage : OwnStage qrz data request.content operation

/-- From empty buffers a request leaves empty buffers, or it starts its own exchange. -/
def Starts (state : QRZState ε) (id : ℕ) (request : Request) (reply : Reply)
    (next : QRZState ε) : Prop :=
  (reply.async = false ∧ next.pending = state.pending ∧ (Emptied state → Emptied next)) ∨
    (reply.async = true ∧ request.uri = bytes "/qrz" ∧ next.pending = state.pending ++ [.connect] ∧
      (Emptied state → ∃ data, next.data = some data ∧ Owns qrz data id request .connect))

theorem Emptied.getD {state : QRZState ε} (h : Emptied state) :
    (state.data.getD {}).request = [] ∧ (state.data.getD {}).response = [] := by
  cases hdata : state.data with
  | none => exact ⟨rfl, rfl⟩
  | some data => exact h data hdata

theorem askQRZ_starts (state : QRZState ε) (id : ℕ) {request : Request}
    (huri : request.uri = bytes "/qrz") :
    Starts qrz state id request (qrz.askQRZ id state {} request.content).1
      (qrz.askQRZ id state {} request.content).2 := by
  unfold askQRZ
  dsimp only
  split_ifs with hkey
  · refine .inr ⟨rfl, huri, rfl, fun hempty => ⟨_, rfl, huri, rfl, ?_, ?_, ?_⟩⟩
    · rintro _ ⟨⟩
      rfl
    · exact .inl (by simp only [hempty.getD.1, List.nil_append])
    · exact hempty.getD.2
  · cases hselect : qrz.select state.env with
    | none =>
      refine .inl ⟨rfl, rfl, ?_⟩
      rintro hempty data ⟨⟩
      exact hempty.getD
    | some account =>
      refine .inr ⟨rfl, huri, rfl, fun hempty => ⟨_, rfl, huri, rfl, ?_, ?_, ?_⟩⟩
      · rintro _ ⟨⟩
        rfl
      · exact .inr ⟨_, _, _, hselect, by simp only [hempty.getD.1, List.nil_append]⟩
      · exact hempty.getD.2

theorem handleRequest_starts (state : QRZState ε) (id : ℕ) (request : Request) :
    Starts qrz state id request (qrz.handleRequest id state request {}).2.1
      (qrz.handleRequest id state request {}).2.2 := by
  unfold handleRequest
  split_ifs with huri
  · exact askQRZ_starts qrz state id huri
  · unfold addUser
    dsimp only
    split_ifs <;> exact .inl ⟨rfl, rfl, fun h => h⟩
  · refine .inl ⟨?_, rfl, fun h => h⟩
    unfold sendUsername
    cases qrz.select state.env <;> rfl
  · exact .inl ⟨rfl, rfl, fun h => h⟩

theorem requestHandler_starts (state : QRZState ε) (id : ℕ) (request : Request) :
    Starts qrz state id request (qrz.requestHandler others authenticated state id request).2
      (qrz.requestHandler others authenticated state id request).1 := by
  refine requestHandler_rule qrz others authenticated (P := Starts qrz state id request) ?_ ?_
    (handleRequest_starts qrz state id request)
  · rintro reply s status content (⟨h1, h2, h3⟩ | ⟨h1, h2, h3, h4⟩)
    · exact .inl ⟨h1, h2, h3⟩
    · exact .inr ⟨h1, h2, h3, h4⟩
  · intro reply env
    exact .inl ⟨rfl, rfl, fun h => h⟩

/-! ## One turn of the loop -/

/-- At a turn of the loop no operation is under way, and the buffers are empty or no `/qrz` request
is buffered. -/
structure Ready (session : Session (QRZState ε)) : Prop where
  current : session.currentReply = none
  reads : session.reads = 0
  pending : session.modules.pending = []
  numbered : session.dispatched.length = session.replies.length
  unfinished : session.req.finished = false
  safe : Emptied session.modules ∨ NoneBuffered session

/-- The session reads. -/
structure Idle (session : Session (QRZState ε)) : Prop where
  current : session.currentReply = none
  reads : session.reads = 1
  total : session.parsedTotal = 0
  unfinished : session.req.finished = false
  pending : session.modules.pending = []
  numbered : session.dispatched.length = session.replies.length

/-- The session waits for the reply of its last request. -/
structure Waits (session : Session (QRZState ε)) (n : ℕ) : Prop where
  current : session.currentReply = some n
  reads : session.reads = 0
  total : session.parsedTotal ≤ session.buffer.length
  unfinished : session.req.finished = false
  numbered : session.dispatched.length = session.replies.length

/-- The session waits for the end of the exchange of its last request. -/
structure Exchanging (session : Session (QRZState ε)) (n : ℕ) : Prop where
  waits : Waits session n
  own : ∃ data operation request, session.modules.data = some data ∧
    session.modules.pending = [operation] ∧ session.dispatched[n]? = some request ∧
    Owns qrz data n request operation

theorem afterRequest_starts (session : Session (QRZState ε)) (count : ℕ) (t : State × Request) :
    Starts qrz session.modules session.replies.length t.2
      (((session.afterRequest (qrz.requestHandler others authenticated) count t).replies.getD
        session.replies.length {}))
      (session.afterRequest (qrz.requestHandler others authenticated) count t).modules := by
  have h := requestHandler_starts qrz others authenticated session.modules
    session.replies.length t.2
  simpa [Session.afterRequest, Session.dispatch, Session.advance] using h

/-- What the loop itself keeps at each turn: nothing is waited for, no operation is under way, and
each request has its reply. -/
structure Looping (session : Session (QRZState ε)) : Prop where
  current : session.currentReply = none
  reads : session.reads = 0
  pending : session.modules.pending = []
  numbered : session.dispatched.length = session.replies.length
  unfinished : session.req.finished = false

section Looping
variable {session : Session (QRZState ε)} (h : Looping session)
include h

theorem Looping.startRead : Idle session.startRead where
  current := h.current
  reads := by simp [Session.startRead, h.reads]
  total := rfl
  unfinished := h.unfinished
  pending := h.pending
  numbered := h.numbered

theorem Looping.reject {t : State × Request} {e : Unit} {rest : Bytes}
    (hp : decoder.parse (session.parser, session.req) session.ahead = .fail t e rest) :
    Idle (session.advance (0, t)).stop.startRead where
  current := h.current
  reads := by simp [Session.startRead, Session.stop, Session.advance, h.reads]
  total := rfl
  unfinished :=
    have hunfinished : decoder.finished (session.parser, session.req) = false := h.unfinished
    decoder.fail_unfinished hunfinished hp
  pending := h.pending
  numbered := h.numbered

theorem Looping.more {t : State × Request}
    (hp : decoder.parse (session.parser, session.req) session.ahead = .more t) :
    Looping (session.advance (session.ahead.length, t)) where
  current := h.current
  reads := h.reads
  pending := h.pending
  numbered := h.numbered
  unfinished :=
    have hunfinished : decoder.finished (session.parser, session.req) = false := h.unfinished
    decoder.more_unfinished hunfinished hp

variable {data rest : Bytes} {t : State × Request}

/-- Behind a request with an asynchronous reply. -/
theorem Looping.waits (hdata : session.ahead = data ++ rest)
    (hp : decoder.parse (session.parser, session.req) data = .done t []) :
    Waits { session.afterRequest (qrz.requestHandler others authenticated) data.length t with
      currentReply := some session.replies.length } session.replies.length where
  current := rfl
  reads := h.reads
  total := Session.afterRequest_total_le (qrz.requestHandler others authenticated) hdata hp
  unfinished := rfl
  numbered := by simp [Session.afterRequest, Session.dispatch, Session.advance, h.numbered]

/-- Behind a request that is answered at once. -/
theorem Looping.writeReply {count : ℕ} (hpending : (session.afterRequest
      (qrz.requestHandler others authenticated) count t).modules.pending =
        session.modules.pending) :
    Looping ((session.afterRequest (qrz.requestHandler others authenticated) count t).writeReply
      session.replies.length) where
  current := h.current
  reads := h.reads
  pending := hpending.trans h.pending
  numbered := by
    simp [Session.afterRequest, Session.dispatch, Session.advance, Session.writeReply, h.numbered]
  unfinished := rfl

end Looping

/-- The bytes of a read are there. -/
theorem Idle.read {session : Session (QRZState ε)} (h : Idle session) (data : Bytes) :
    Looping { session with reads := session.reads - 1, buffer := data } where
  current := h.current
  reads := by simp [h.reads]
  pending := h.pending
  numbered := h.numbered
  unfinished := h.unfinished

theorem Ready.looping {session : Session (QRZState ε)} (h : Ready session) : Looping session :=
  ⟨h.current, h.reads, h.pending, h.numbered, h.unfinished⟩

theorem Looping.ready {session : Session (QRZState ε)} (h : Looping session)
    (hsafe : Emptied session.modules ∨ NoneBuffered session) : Ready session :=
  ⟨h.current, h.reads, h.pending, h.numbered, h.unfinished, hsafe⟩

theorem ready_rule :
    Session.LoopRule (qrz.requestHandler others authenticated) Ready fun session =>
      Idle session ∨ ∃ n, Exchanging qrz session n where
  last h _ := .inl h.looping.startRead
  reject h hp := .inl (h.looping.reject hp)
  more {session t} h _ hp := (h.looping.more hp).ready (.inr (noneBuffered_more session t))
  async := by
    intro session data rest t h hdata hp hasync
    rcases afterRequest_starts qrz others authenticated session data.length t with
      ⟨hsync, -, -⟩ | ⟨-, huri, hpending, hown⟩
    · rw [hsync] at hasync
      cases hasync
    · have hempty : Emptied session.modules := h.safe.resolve_right fun hnb =>
        hnb.uri_ne hdata hp huri
      obtain ⟨next, hnext, howns⟩ := hown hempty
      refine .inr ⟨session.replies.length, h.looping.waits qrz others authenticated hdata hp, next,
        .connect, t.2, hnext, ?_, ?_, howns⟩
      · simp [hpending, h.pending]
      · simp [Session.afterRequest, Session.dispatch, Session.advance, ← h.numbered]
  sync := by
    intro session data rest t h hdata hp hsync
    rcases afterRequest_starts qrz others authenticated session data.length t with
      ⟨-, hpending, hempty⟩ | ⟨hasync, -⟩
    · exact (h.looping.writeReply qrz others authenticated hpending).ready
        (h.safe.imp hempty fun hnb => hnb.writeReply qrz others authenticated hdata hp)
    · rw [hsync] at hasync
      cases hasync

theorem Ready.handleRead {session : Session (QRZState ε)} (h : Ready session)
    (hle : session.parsedTotal ≤ session.buffer.length) :
    let next := session.handleRead (qrz.requestHandler others authenticated)
    Idle next ∨ ∃ n, Exchanging qrz next n := by
  refine (ready_rule qrz others authenticated).readLoop h h.unfinished hle ?_
  simp [Session.ahead]

/-! ## One event -/

theorem resetReply_idle {session : Session (QRZState ε)} (h : Idle session) :
    Idle (resetReply session) :=
  ⟨h.current, h.reads, h.total, h.unfinished, h.pending, h.numbered⟩

/-- An exchange that was started when the one before it ended goes on without its pointer. -/
theorem resetReply_exchanging {session : Session (QRZState ε)} {n : ℕ}
    (h : Exchanging qrz session n) : Exchanging qrz (resetReply session) n := by
  obtain ⟨⟨h1, h2, h3, h4, h5⟩, data, operation, request, hdata, hpending, hrequest, howns⟩ := h
  refine ⟨⟨h1, h2, h3, h4, h5⟩, { data with reply := none }, operation, request, ?_, hpending,
    hrequest, { howns with reply := by simp, stage := ?_ }⟩
  · simp [resetReply, hdata]
  · have hstage := howns.stage
    cases operation <;> exact hstage

/-- The end of an exchange goes on with the loop, behind the reply that was waited for. -/
theorem finish_eq_some {session next : Session (QRZState ε)} {n : ℕ} (h : Waits session n)
    (hpending : session.modules.pending = []) (data : QRZModuleData) (fill : Reply → Reply)
    (hnext : qrz.finish others authenticated session data fill = some next) :
    ∃ id, let sent := (fillReply session data id fill).sendCurrent n
      Looping sent ∧ sent.parsedTotal ≤ sent.buffer.length ∧
        next = resetReply (sent.handleRead (qrz.requestHandler others authenticated)) := by
  unfold QRZ.finish at hnext
  cases hreply : data.reply with
  | none => simp [hreply] at hnext
  | some id =>
    have hsend : (fillReply session data id fill).sendAsyncReply
        (qrz.requestHandler others authenticated) = _ :=
      Session.sendAsyncReply_some _ h.current
    rw [hreply] at hnext
    simp only [hsend, Option.map_some, Option.some.injEq] at hnext
    have hnumbered : ((fillReply session data id fill).sendCurrent n).dispatched.length =
        ((fillReply session data id fill).sendCurrent n).replies.length := by
      simpa [fillReply, Session.sendCurrent, Session.writeReply] using h.numbered
    exact ⟨id, ⟨rfl, h.reads, hpending, hnumbered, h.unfinished⟩, h.total, hnext.symm⟩

theorem finish_idle {session next : Session (QRZState ε)} {n : ℕ} (h : Waits session n)
    (hpending : session.modules.pending = []) (data : QRZModuleData)
    (hsafe : (data.request = [] ∧ data.response = []) ∨ NoneBuffered session)
    (fill : Reply → Reply) (hnext : qrz.finish others authenticated session data fill = some next) :
    Idle next ∨ ∃ n, Exchanging qrz next n := by
  obtain ⟨id, hlooping, htotal, rfl⟩ :=
    finish_eq_some qrz others authenticated h hpending data fill hnext
  have hready : Ready ((fillReply session data id fill).sendCurrent n) := by
    refine hlooping.ready (hsafe.imp_left ?_)
    rintro hempty _ ⟨⟩
    exact hempty
  rcases hready.handleRead qrz others authenticated htotal with hidle | ⟨m, hexchanging⟩
  · exact .inl (resetReply_idle hidle)
  · exact .inr ⟨m, resetReply_exchanging qrz hexchanging⟩

theorem begin_exchanging {session : Session (QRZState ε)} {n : ℕ} (h : Waits session n)
    (hpending : session.modules.pending = []) {request : Request}
    (hrequest : session.dispatched[n]? = some request) {data : QRZModuleData}
    {operation : Operation} (howns : Owns qrz data n request operation) :
    Exchanging qrz (begin session data operation) n :=
  ⟨⟨h.current, h.reads, h.total, h.unfinished, h.numbered⟩, data, operation, request, rfl,
    by simp [QRZ.begin, hpending], hrequest, howns⟩

/-- What a completed operation leads to: no operation is under way, or one of an exchange for the
request that is waited for. -/
theorem complete_settled {session next : Session (QRZState ε)} {n : ℕ}
    (h : Exchanging qrz session n) {index : ℕ} (hindex : index < session.modules.pending.length)
    {completion : Completion}
    (htidy : leaves session index completion = false ∨ NoneBuffered session)
    (hnext : qrz.complete others authenticated session index completion = some next) :
    Idle next ∨ ∃ n, Exchanging qrz next n := by
  obtain ⟨hwaits, data, operation, request, hdata, hpending, hrequest, howns⟩ := h
  obtain rfl : index = 0 := by simpa [hpending] using hindex
  have hget : session.modules.pending[0]? = some operation := by simp [hpending]
  have htaken : (take session 0).modules.pending = [] := by simp [take, hpending]
  have hw : Waits (take session 0) n :=
    ⟨hwaits.current, hwaits.reads, hwaits.total, hwaits.unfinished, hwaits.numbered⟩
  have hnone : NoneBuffered session → NoneBuffered (take session 0) := fun h => h
  have hstage := howns.stage
  unfold QRZ.complete at hnext
  simp only [hdata, hget] at hnext
  simp only [leaves, hdata, hget] at htidy
  cases operation with
  | connect =>
    unfold handleQRZConnected at hnext
    split_ifs at hnext with hfailed
    · refine finish_idle qrz others authenticated hw htaken data (.inr ?_) _ hnext
      exact hnone (htidy.resolve_left (by simp [hfailed]))
    · obtain rfl := Option.some.inj hnext
      exact .inr ⟨n, begin_exchanging qrz hw htaken hrequest
        { howns with stage := hstage }⟩
  | write =>
    unfold handleQRZWriteRequest at hnext
    split_ifs at hnext with hfailed
    · refine finish_idle qrz others authenticated hw htaken _ ?_ _ hnext
      refine htidy.imp (fun hsent => ⟨?_, hstage.2⟩) hnone
      simpa [hfailed] using hsent
    · obtain rfl := Option.some.inj hnext
      exact .inr ⟨n, begin_exchanging qrz hw htaken hrequest
        { howns with stage := ⟨rfl, hstage.2⟩ }⟩
  | read =>
    unfold handleQRZReadKey at hnext
    split_ifs at hnext with hfailed
    · refine finish_idle qrz others authenticated hw htaken _ ?_ _ hnext
      refine htidy.imp (fun hreceived => ⟨hstage.1, ?_⟩) hnone
      have hempty : completion.received = [] := by simpa [hfailed] using hreceived
      simp only [hstage.2, hempty, List.nil_append]
    dsimp only at hnext
    cases herror : (qrz.document data completion).error with
    | some error =>
      simp only [herror] at hnext
      refine finish_idle qrz others authenticated hw htaken _ ?_ _ hnext
      exact .inl ⟨hstage.1, rfl⟩
    | none =>
      cases hcallsign : (qrz.document data completion).callsign with
      | some names =>
        simp only [herror, hcallsign] at hnext
        refine finish_idle qrz others authenticated hw htaken _ ?_ _ hnext
        exact .inl ⟨hstage.1, rfl⟩
      | none =>
        simp only [herror, hcallsign, Option.some.injEq] at hnext
        subst hnext
        refine .inr ⟨n, begin_exchanging qrz hw htaken hrequest
          { howns with stage := ⟨.inl ?_, rfl⟩ }⟩
        simp only [hstage.1, List.nil_append, howns.call]

/-! ## Whole runs -/

/-- Between two events. -/
def Rests (session : Session (QRZState ε)) : Prop :=
  Idle session ∨ ∃ n, Exchanging qrz session n

theorem rests_step {session next : Session (QRZState ε)} (h : Rests qrz session) {event : Event ε}
    (henabled : enabled session event = true) (htidy : tidy session event = true)
    (hnext : qrz.step others authenticated session event = some next) : Rests qrz next := by
  cases event with
  | read data =>
    obtain ⟨hreads, -, -⟩ := of_decide_eq_true henabled
    obtain rfl := Option.some.inj hnext
    rcases h with hidle | ⟨n, hexchanging⟩
    · have hready : Ready { session with reads := session.reads - 1, buffer := data } :=
        (hidle.read data).ready (of_decide_eq_true htidy)
      exact hready.handleRead qrz others authenticated (by simp [hidle.total])
    · exact absurd hexchanging.waits.reads hreads
  | change env =>
    obtain rfl := Option.some.inj hnext
    rcases h with ⟨h1, h2, h3, h4, h5, h6⟩ | ⟨n, ⟨h1, h2, h3, h4, h5⟩, hown⟩
    · exact .inl ⟨h1, h2, h3, h4, h5, h6⟩
    · exact .inr ⟨n, ⟨h1, h2, h3, h4, h5⟩, hown⟩
  | complete index completion =>
    have hindex : index < session.modules.pending.length := of_decide_eq_true henabled
    rcases h with hidle | ⟨n, hexchanging⟩
    · simp [hidle.pending] at hindex
    · refine complete_settled qrz others authenticated hexchanging hindex ?_ hnext
      simpa [tidy] using htidy

theorem Rests.ownExchange {session : Session (QRZState ε)} (h : Rests qrz session) :
    OwnExchange qrz session := by
  intro data operation hdata hoperation
  rcases h with hidle | ⟨n, hwaits, data', operation', request, hdata', hpending, hrequest, howns⟩
  · simp [hidle.pending] at hoperation
  · obtain rfl := Option.some.inj (hdata'.symm.trans hdata)
    rw [hpending, List.mem_singleton] at hoperation
    subst hoperation
    have hstage := howns.stage
    refine ⟨n, request, hwaits.current, hrequest, howns.uri, howns.reply, ?_, ?_⟩
    · rintro rfl
      exact hstage.1
    · rintro rfl
      exact hstage.2

/-- In every run in which no `/qrz` request is passed on while the buffers hold what a failed
exchange has left, each exchange writes its own requests and reads its own document. -/
theorem ownExchange_of_tidy (env : ε) (events : List (Event ε)) (session : Session (QRZState ε))
    (hrun : (qrz.system others authenticated env).Run tidy events session) :
    OwnExchange qrz session := by
  have hrests : Rests qrz session := by
    refine System.Run.invariant (I := fun _ s => Rests qrz s) ?_ ?_ hrun
    · exact .inl ⟨rfl, rfl, rfl, rfl, rfl, rfl⟩
    · intro past s event t ih henabled htidy hstep
      exact rests_step qrz others authenticated ih henabled htidy hstep
  exact hrests.ownExchange qrz

theorem ownExchange_sampleEvents : ∃ session : Session (QRZState Unit),
    session.modules.pending = [.write] ∧ OwnExchange sampleQrz session := by
  have hexec : (System.exec (sampleQrz.system [] (fun _ => true) ()) tidy
      (Session.start { env := () }) [.read lookup, .complete 0 {}]).any
      (fun session => session.modules.pending = [.write]) = true := by decide +kernel
  obtain ⟨session, hrun, hpending⟩ := System.exists_run_of_exec hexec
  exact ⟨session, of_decide_eq_true hpending,
    ownExchange_of_tidy sampleQrz [] (fun _ => true) () _ session hrun⟩

/-- A service that hands out a key with its first document. -/
def keyedQrz : QRZ Unit :=
  { sampleQrz with
    parse _ := { key := some (bytes "k"), callsign := some (bytes "fname", bytes "name") } }

def lookupOf (call : String) : Bytes :=
  bytes "POST /qrz HTTP/1.1\r\nContent-Length: 1\r\n\r\n" ++ bytes call ++ crlf

/-- One call sign is asked for and answered, the connection for the next one fails, and the one for
the third is made. -/
def failedEvents : List (Event Unit) :=
  [.read (lookupOf "a"), .complete 0 {}, .complete 0 {}, .complete 0 {},
    .read (lookupOf "b"), .complete 0 { failed := true }, .read (lookupOf "c"), .complete 0 {}]

/-- No request of the session is the one that the write under way holds. -/
def writesForeign (session : Session (QRZState Unit)) : Bool :=
  session.modules.data.any fun data =>
    session.modules.pending = [.write] ∧
      (∀ request ∈ session.dispatched, data.request ≠ callsignRequest data.key request.content) ∧
      data.request ≠ keyRequest (bytes "ok2jrq") (bytes "secret")

/-- The request that a failed connection left is written together with the next one. -/
theorem not_ownExchange_failed :
    ¬ ∀ (qrz : QRZ Unit) (others : List (Responder Unit Unit)) (authenticated : Unit → Bool)
      (events : List (Event Unit)) (session : Session (QRZState Unit)),
      (qrz.system others authenticated ()).Run (fun _ _ => true) events session →
        OwnExchange qrz session := by
  intro h
  have hexec : (System.exec (keyedQrz.system [] (fun _ => true) ()) (fun _ _ => true)
      (Session.start { env := () }) failedEvents).any writesForeign = true := by decide +kernel
  obtain ⟨session, hrun, hforeign⟩ := System.exists_run_of_exec hexec
  obtain ⟨data, hdata, hcheck⟩ := (Option.any_eq_true _ _).mp hforeign
  obtain ⟨hpending, hcall, hkey⟩ := of_decide_eq_true hcheck
  obtain ⟨n, request, -, hrequest, -, -, hwrite, -⟩ :=
    h keyedQrz [] (fun _ => true) failedEvents session hrun data .write hdata (by simp [hpending])
  rcases hwrite rfl with hsame | ⟨env, username, password, hselect, hsame⟩
  · exact hcall request (List.mem_of_getElem? hrequest) hsame
  · obtain ⟨rfl, rfl⟩ : bytes "ok2jrq" = username ∧ bytes "secret" = password := by
      simpa [keyedQrz, sampleQrz] using hselect
    exact hkey hsame

end Hamlog.Server.QRZ
