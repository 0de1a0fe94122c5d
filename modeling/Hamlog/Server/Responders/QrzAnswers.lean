import Hamlog.Server.Responders.Qrz
import Hamlog.Server.SessionOrder

/-! # Who is answered by the end of an exchange

The data of a session have room for one exchange. A completion handler fills
the reply that the data point to, sends the reply that the session waits for,
and only then resets the pointer; sending lets the session read on. The two
replies are the same, and every request is answered once, as long as no
further `/qrz` request is waiting in the buffer at that moment.
-/
namespace Hamlog.Server.QRZ
open Foundation Wire RequestParser

variable {ε : Type*} (qrz : QRZ ε) (others : List (Responder Unit ε)) (authenticated : ε → Bool)

/-- Data arrive from the client, the rest of the server changes, or an operation completes. -/
inductive Event (ε : Type*) where
  | read (data : Bytes)
  | change (env : ε)
  | complete (index : ℕ) (completion : Completion)

def enabled (session : Session (QRZState ε)) : Event ε → Bool
  | .read data => session.reads ≠ 0 ∧ data ≠ [] ∧ data.length ≤ bufferSize
  | .change _ => true
  | .complete index _ => index < session.modules.pending.length

def step (session : Session (QRZState ε)) : Event ε → Option (Session (QRZState ε))
  | .read data => some (session.readDone (qrz.requestHandler others authenticated) data)
  | .change env => some { session with modules := { session.modules with env } }
  | .complete index completion => qrz.complete others authenticated session index completion

def system (env : ε) : System (Session (QRZState ε)) (Event ε) where
  start := Session.start { env }
  enabled := enabled
  step := qrz.step others authenticated

/-- The pointer of the exchange. -/
def replyRef (state : QRZState ε) : Option ℕ := state.data.bind (·.reply)

/-- The complete requests that are received and not parsed. -/
def buffered (session : Session (QRZState ε)) : List Request :=
  (decoder.feed (session.parser, session.req) session.ahead).1.map Prod.snd

def NoneBuffered (session : Session (QRZState ε)) : Prop :=
  ∀ request ∈ buffered session, request.uri ≠ bytes "/qrz"

instance (session : Session (QRZState ε)) : Decidable (NoneBuffered session) :=
  inferInstanceAs (Decidable (∀ request ∈ buffered session, request.uri ≠ bytes "/qrz"))

/-- When an exchange ends, no further `/qrz` request is buffered. -/
def unpipelined (session : Session (QRZState ε)) : Event ε → Bool
  | .complete index completion => !qrz.ends session index completion || NoneBuffered session
  | _ => true

/-! ## One request -/

/-- What a request did to its reply and to the exchange: nothing, or a `/qrz` request started an
exchange for its own reply. -/
def Handled (state : QRZState ε) (id : ℕ) (request : Request) (reply : Reply)
    (next : QRZState ε) : Prop :=
  (reply.async = false ∧ next.pending = state.pending ∧ replyRef next = replyRef state) ∨
    (reply.async = true ∧ request.uri = bytes "/qrz" ∧
      next.pending = state.pending ++ [.connect] ∧ replyRef next = some id)

theorem askQRZ_handled (state : QRZState ε) (id : ℕ) {request : Request}
    (huri : request.uri = bytes "/qrz") (call : Bytes) :
    Handled state id request (qrz.askQRZ id state {} call).1 (qrz.askQRZ id state {} call).2 := by
  unfold askQRZ
  dsimp only
  split_ifs with hkey
  · exact .inr ⟨rfl, huri, rfl, rfl⟩
  · cases qrz.select state.env with
    | none =>
      refine .inl ⟨rfl, rfl, ?_⟩
      cases h : state.data <;> simp [replyRef, h]
    | some account => exact .inr ⟨rfl, huri, rfl, rfl⟩

theorem addUser_handled (state : QRZState ε) (id : ℕ) (request : Request) :
    Handled state id request (qrz.addUser state request {}).1
      (qrz.addUser state request {}).2 := by
  unfold addUser
  dsimp only
  split_ifs <;> exact .inl ⟨rfl, rfl, rfl⟩

theorem handleRequest_handled (state : QRZState ε) (id : ℕ) (request : Request) :
    Handled state id request (qrz.handleRequest id state request {}).2.1
      (qrz.handleRequest id state request {}).2.2 := by
  unfold handleRequest
  split_ifs with huri
  · exact askQRZ_handled qrz state id huri request.content
  · exact addUser_handled qrz state id request
  · refine .inl ⟨?_, rfl, rfl⟩
    unfold sendUsername
    cases qrz.select state.env <;> rfl
  · exact .inl ⟨rfl, rfl, rfl⟩

/-- What holds of the replies of the module holds of all replies, if it bears other texts and the
replies of modules that leave the exchange alone. -/
theorem requestHandler_rule {state : QRZState ε} {id : ℕ} {request : Request}
    {P : Reply → QRZState ε → Prop}
    (hfill : ∀ reply s status content, P reply s →
      P ((reply.setStatus status).setContent content) s)
    (hother : ∀ (reply : Reply) (env : ε), P (reply.setAsync false) { state with env })
    (hown : P (qrz.handleRequest id state request {}).2.1
      (qrz.handleRequest id state request {}).2.2) :
    P (qrz.requestHandler others authenticated state id request).2
      (qrz.requestHandler others authenticated state id request).1 := by
  refine ModuleManager.answer_rule id state request hfill (hother {} state.env)
    fun responder hcalled => ?_
  obtain ⟨hmem, -⟩ := ModuleManager.called_mem hcalled
  rcases List.mem_cons.mp hmem with rfl | hmem
  · exact hown
  · obtain ⟨other, -, rfl⟩ := List.mem_map.mp hmem
    exact hother _ _

theorem requestHandler_handled (state : QRZState ε) (id : ℕ) (request : Request) :
    Handled state id request (qrz.requestHandler others authenticated state id request).2
      (qrz.requestHandler others authenticated state id request).1 := by
  refine requestHandler_rule qrz others authenticated (P := Handled state id request) ?_ ?_
    (handleRequest_handled qrz state id request)
  · rintro reply s status content (⟨h1, h2, h3⟩ | ⟨h1, h2, h3, h4⟩)
    · exact .inl ⟨h1, h2, h3⟩
    · exact .inr ⟨h1, h2, h3, h4⟩
  · intro reply env
    exact .inl ⟨rfl, rfl, rfl⟩

/-! ## One turn of the loop -/

/-- At a turn of the loop no operation is under way and every earlier request is answered. A pointer
that is not reset is left alone, because no `/qrz` request is buffered. -/
structure Turning (ref : Option ℕ) (session : Session (QRZState ε)) : Prop where
  current : session.currentReply = none
  reads : session.reads = 0
  pending : session.modules.pending = []
  ref_eq : replyRef session.modules = ref
  wrote : session.Wrote session.replies.length
  unfinished : session.req.finished = false
  safe : ref = none ∨ NoneBuffered session

/-- The session reads, and all its requests are answered. -/
structure Reading (ref : Option ℕ) (session : Session (QRZState ε)) : Prop where
  current : session.currentReply = none
  reads : session.reads = 1
  total : session.parsedTotal = 0
  unfinished : session.req.finished = false
  pending : session.modules.pending = []
  ref_eq : replyRef session.modules = ref
  wrote : session.Wrote session.replies.length

/-- The session waits for the reply of its last request, which is the reply of the one exchange that
is under way. -/
structure Waiting (session : Session (QRZState ε)) (n : ℕ) : Prop where
  current : session.currentReply = some n
  reads : session.reads = 0
  total : session.parsedTotal ≤ session.buffer.length
  unfinished : session.req.finished = false
  pending : session.modules.pending.length = 1
  ref_eq : replyRef session.modules = some n
  last : session.replies.length = n + 1
  wrote : session.Wrote n

/-- What the dispatch of the next request did, in terms of the session. -/
theorem afterRequest_handled (session : Session (QRZState ε)) (count : ℕ) (t : State × Request) :
    Handled session.modules session.replies.length t.2
      (((session.afterRequest (qrz.requestHandler others authenticated) count t).replies.getD
        session.replies.length {}))
      (session.afterRequest (qrz.requestHandler others authenticated) count t).modules := by
  have h := requestHandler_handled qrz others authenticated session.modules
    session.replies.length t.2
  simpa [Session.afterRequest, Session.dispatch, Session.advance] using h

theorem buffered_done {session : Session (QRZState ε)} {data rest : Bytes} {t : State × Request}
    (hdata : session.ahead = data ++ rest)
    (hp : decoder.parse (session.parser, session.req) data = .done t []) :
    buffered session = t.2 :: (decoder.feed (t.1, {}) rest).1.map Prod.snd := by
  rw [buffered, hdata, decoder.feed_eq_parse, decoder.parse_append_done hp]
  rfl

theorem NoneBuffered.uri_ne {session : Session (QRZState ε)} (h : NoneBuffered session)
    {data rest : Bytes} {t : State × Request} (hdata : session.ahead = data ++ rest)
    (hp : decoder.parse (session.parser, session.req) data = .done t []) :
    t.2.uri ≠ bytes "/qrz" :=
  h t.2 (by simp [buffered_done hdata hp])

/-- Nothing is buffered behind an unfinished request. -/
theorem noneBuffered_more (session : Session (QRZState ε)) (t : State × Request) :
    NoneBuffered (session.advance (session.ahead.length, t)) := by
  simp [NoneBuffered, buffered, Session.ahead_advance session (List.append_nil _).symm]

theorem NoneBuffered.writeReply {session : Session (QRZState ε)} (h : NoneBuffered session)
    {data rest : Bytes} {t : State × Request} (hdata : session.ahead = data ++ rest)
    (hp : decoder.parse (session.parser, session.req) data = .done t []) :
    NoneBuffered ((session.afterRequest (qrz.requestHandler others authenticated) data.length
      t).writeReply session.replies.length) := by
  intro request hmem
  have hahead : ((session.afterRequest (qrz.requestHandler others authenticated) data.length
      t).writeReply session.replies.length).ahead = rest :=
    Session.ahead_advance session hdata t
  rw [buffered, hahead] at hmem
  refine h request ?_
  rw [buffered_done hdata hp]
  exact List.mem_cons_of_mem _ hmem

theorem turning_rule (ref : Option ℕ) :
    Session.LoopRule (qrz.requestHandler others authenticated) (Turning ref) fun session =>
      Reading ref session ∨ (ref = none ∧ ∃ n, Waiting session n) where
  last := by
    intro session h _
    exact .inl ⟨h.current, by simp [Session.startRead, h.reads], rfl, h.unfinished, h.pending,
      h.ref_eq, h.wrote⟩
  reject := by
    intro session t e rest h hp
    have hunfinished : decoder.finished (session.parser, session.req) = false := h.unfinished
    exact .inl ⟨h.current,
      by simp [Session.startRead, Session.stop, Session.advance, h.reads], rfl,
      decoder.fail_unfinished hunfinished hp, h.pending, h.ref_eq, h.wrote⟩
  more := by
    intro session t h hne hp
    have hunfinished : decoder.finished (session.parser, session.req) = false := h.unfinished
    refine ⟨h.current, h.reads, h.pending, h.ref_eq, h.wrote,
      decoder.more_unfinished hunfinished hp, .inr (noneBuffered_more session t)⟩
  async := by
    intro session data rest t h hdata hp hasync
    have hhandled := afterRequest_handled qrz others authenticated session data.length t
    rcases hhandled with ⟨hsync, -, -⟩ | ⟨-, huri, hpending, href⟩
    · rw [hsync] at hasync
      cases hasync
    · have hnone : ref = none := h.safe.resolve_right fun hnb => hnb.uri_ne hdata hp huri
      have hle := Session.afterRequest_total_le (qrz.requestHandler others authenticated) hdata hp
      refine .inr ⟨hnone, session.replies.length, rfl, h.reads, hle, rfl, ?_, href, ?_, h.wrote⟩
      · simp [hpending, h.pending]
      · simp [Session.afterRequest, Session.dispatch, Session.advance]
  sync := by
    intro session data rest t h hdata hp hsync
    have hhandled := afterRequest_handled qrz others authenticated session data.length t
    rcases hhandled with ⟨-, hpending, href⟩ | ⟨hasync, -⟩
    · refine ⟨h.current, h.reads, hpending.trans h.pending, href.trans h.ref_eq, ?_, rfl,
        h.safe.imp_right fun hnb => hnb.writeReply qrz others authenticated hdata hp⟩
      have hlen : ((session.afterRequest (qrz.requestHandler others authenticated) data.length
          t).writeReply session.replies.length).replies.length = session.replies.length + 1 := by
        simp [Session.afterRequest, Session.dispatch, Session.advance, Session.writeReply]
      rw [hlen]
      exact Session.writeReply_wrote h.wrote
    · rw [hsync] at hasync
      cases hasync

theorem Turning.handleRead {ref : Option ℕ} {session : Session (QRZState ε)}
    (h : Turning ref session) (hle : session.parsedTotal ≤ session.buffer.length) :
    let next := session.handleRead (qrz.requestHandler others authenticated)
    Reading ref next ∨ (ref = none ∧ ∃ n, Waiting next n) := by
  refine (turning_rule qrz others authenticated ref).readLoop h h.unfinished hle ?_
  simp [Session.ahead]

/-! ## One event -/

/-- Between two events. -/
def Settled (session : Session (QRZState ε)) : Prop :=
  Reading none session ∨ ∃ n, Waiting session n

/-- A waiting session whose operation was taken for completion; `data` are its data. -/
structure Completing (session : Session (QRZState ε)) (data : QRZModuleData) (n : ℕ) : Prop where
  current : session.currentReply = some n
  reads : session.reads = 0
  total : session.parsedTotal ≤ session.buffer.length
  unfinished : session.req.finished = false
  pending : session.modules.pending = []
  reply : data.reply = some n
  last : session.replies.length = n + 1
  wrote : session.Wrote n

theorem Completing.begin {session : Session (QRZState ε)} {data : QRZModuleData} {n : ℕ}
    (h : Completing session data n) (operation : Operation) :
    Waiting (begin session data operation) n where
  current := h.current
  reads := h.reads
  total := h.total
  unfinished := h.unfinished
  pending := by simp [QRZ.begin, h.pending]
  ref_eq := h.reply
  last := h.last
  wrote := h.wrote

theorem replyRef_reset (session : Session (QRZState ε)) :
    replyRef (resetReply session).modules = none := by
  cases h : session.modules.data <;> simp [replyRef, resetReply, h]

theorem Reading.reset {ref : Option ℕ} {session : Session (QRZState ε)}
    (h : Reading ref session) : Reading none (resetReply session) where
  current := h.current
  reads := h.reads
  total := h.total
  unfinished := h.unfinished
  pending := h.pending
  ref_eq := replyRef_reset session
  wrote := h.wrote

/-- When the reply is sent, the pointer of the exchange is still set. -/
theorem Completing.turning {session : Session (QRZState ε)} {data : QRZModuleData} {n : ℕ}
    (h : Completing session data n) (fill : Reply → Reply) (hnone : NoneBuffered session) :
    Turning (some n) ((fillReply session data n fill).sendCurrent n) where
  current := rfl
  reads := h.reads
  pending := h.pending
  ref_eq := h.reply
  wrote := by
    have hlen : ((fillReply session data n fill).sendCurrent n).replies.length = n + 1 := by
      simp [fillReply, Session.sendCurrent, Session.writeReply, h.last]
    rw [hlen]
    have hfilled : (fillReply session data n fill).Wrote n := h.wrote
    exact Session.writeReply_wrote hfilled
  unfinished := h.unfinished
  safe := .inr hnone

/-- A handler does not crash, and settles the session under a condition. -/
def Resumes (guard : Prop) (result : Option (Session (QRZState ε))) : Prop :=
  ∃ next, result = some next ∧ (guard → Settled next)

/-- The end of an exchange answers the request of the exchange. -/
theorem Completing.finish {session : Session (QRZState ε)} {data : QRZModuleData} {n : ℕ}
    (h : Completing session data n) (fill : Reply → Reply) :
    Resumes (NoneBuffered session) (qrz.finish others authenticated session data fill) := by
  have hsend : (fillReply session data n fill).sendAsyncReply
      (qrz.requestHandler others authenticated) = _ :=
    Session.sendAsyncReply_some _ h.current
  simp only [QRZ.finish, h.reply, hsend]
  refine ⟨_, rfl, fun hnone => ?_⟩
  rcases (h.turning fill hnone).handleRead qrz others authenticated h.total with
    hreading | ⟨hno, -⟩
  · exact .inl hreading.reset
  · cases hno

theorem Completing.setData {session : Session (QRZState ε)} {data : QRZModuleData} {n : ℕ}
    (h : Completing session data n) (data' : QRZModuleData) (hdata : data'.reply = data.reply) :
    Completing session data' n :=
  { h with reply := hdata.trans h.reply }

/-- The end of an exchange with its data changed, but not their pointer. -/
theorem Completing.finishWith {session : Session (QRZState ε)} {data : QRZModuleData} {n : ℕ}
    (h : Completing session data n) {guard : Prop} (hguard : guard → NoneBuffered session)
    (data' : QRZModuleData) (hdata : data'.reply = data.reply) (fill : Reply → Reply) :
    Resumes guard (qrz.finish others authenticated session data' fill) := by
  obtain ⟨next, hnext, hsettled⟩ := (h.setData data' hdata).finish qrz others authenticated fill
  exact ⟨next, hnext, fun hg => hsettled (hguard hg)⟩

theorem Completing.goOn {session : Session (QRZState ε)} {data : QRZModuleData} {n : ℕ}
    (h : Completing session data n) {guard : Prop} (data' : QRZModuleData)
    (hdata : data'.reply = data.reply) (operation : Operation) :
    Resumes guard (some (QRZ.begin session data' operation)) :=
  ⟨_, rfl, fun _ => .inr ⟨n, (h.setData data' hdata).begin operation⟩⟩

theorem Completing.connected {session : Session (QRZState ε)} {data : QRZModuleData} {n : ℕ}
    (h : Completing session data n) (completion : Completion) :
    Resumes (completion.failed = true → NoneBuffered session)
      (qrz.handleQRZConnected others authenticated session data completion) := by
  unfold handleQRZConnected
  split_ifs with hfailed
  · exact h.finishWith qrz others authenticated (fun hguard => hguard hfailed) data rfl _
  · exact h.goOn data rfl .write

theorem Completing.writeRequest {session : Session (QRZState ε)} {data : QRZModuleData} {n : ℕ}
    (h : Completing session data n) (completion : Completion) :
    Resumes (completion.failed = true → NoneBuffered session)
      (qrz.handleQRZWriteRequest others authenticated session data completion) := by
  unfold handleQRZWriteRequest
  split_ifs with hfailed
  · refine h.finishWith qrz others authenticated (fun hguard => hguard hfailed) _ ?_ _
    rfl
  · refine h.goOn _ ?_ .read
    rfl

/-- Whether the document of a completed read ends the exchange. -/
def endsRead (data : QRZModuleData) (completion : Completion) : Bool :=
  completion.failed || (qrz.document data completion).error.isSome ||
    (qrz.document data completion).callsign.isSome

theorem Completing.readKey {session : Session (QRZState ε)} {data : QRZModuleData} {n : ℕ}
    (h : Completing session data n) (completion : Completion) :
    Resumes (qrz.endsRead data completion = true → NoneBuffered session)
      (qrz.handleQRZReadKey others authenticated session data completion) := by
  unfold handleQRZReadKey
  split_ifs with hfailed
  · refine h.finishWith qrz others authenticated
      (fun hguard => hguard (by simp [endsRead, hfailed])) _ ?_ _
    rfl
  dsimp only
  cases herror : (qrz.document data completion).error with
  | some error =>
    refine h.finishWith qrz others authenticated
      (fun hguard => hguard (by simp [endsRead, herror])) _ ?_ _
    rfl
  | none =>
    cases hcallsign : (qrz.document data completion).callsign with
    | some names =>
      refine h.finishWith qrz others authenticated
        (fun hguard => hguard (by simp [endsRead, hcallsign])) _ ?_ _
      rfl
    | none =>
      refine h.goOn _ ?_ .connect
      rfl

/-- Taking the one operation of a waiting session for completion. -/
theorem Waiting.completing {session : Session (QRZState ε)} {n : ℕ} (h : Waiting session n) :
    ∃ data operation, session.modules.data = some data ∧
      session.modules.pending = [operation] ∧ Completing (take session 0) data n := by
  obtain ⟨operation, hop⟩ := List.length_eq_one_iff.mp h.pending
  have href := h.ref_eq
  rw [replyRef, Option.bind_eq_some_iff] at href
  obtain ⟨data, hdata, hreply⟩ := href
  refine ⟨data, operation, hdata, hop, ?_⟩
  exact {
    current := h.current
    reads := h.reads
    total := h.total
    unfinished := h.unfinished
    pending := by simp [take, hop]
    reply := hreply
    last := h.last
    wrote := h.wrote }

/-- The completion of an operation answers the waiting request, or goes on with the exchange. -/
theorem Waiting.complete {session : Session (QRZState ε)} {n : ℕ} (h : Waiting session n)
    {index : ℕ} (hindex : index < session.modules.pending.length) (completion : Completion) :
    Resumes (qrz.unpipelined session (.complete index completion) = true)
      (qrz.complete others authenticated session index completion) := by
  obtain rfl : index = 0 := by
    have := h.pending
    omega
  obtain ⟨data, operation, hdata, hop, hcompleting⟩ := h.completing
  have hget : session.modules.pending[0]? = some operation := by simp [hop]
  have hguard (hends : Bool) (heq : qrz.ends session 0 completion = hends)
      (hg : qrz.unpipelined session (.complete 0 completion) = true) :
      hends = true → NoneBuffered (take session 0) := by
    rintro rfl
    have hnone : NoneBuffered session := by simpa [unpipelined, heq] using hg
    exact hnone
  unfold QRZ.complete
  simp only [hdata, hget]
  cases operation with
  | connect =>
    obtain ⟨next, hnext, hsettled⟩ := hcompleting.connected qrz others authenticated completion
    exact ⟨next, hnext, fun hg => hsettled (hguard _ (by simp [ends, hdata, hget]) hg)⟩
  | write =>
    obtain ⟨next, hnext, hsettled⟩ := hcompleting.writeRequest qrz others authenticated completion
    exact ⟨next, hnext, fun hg => hsettled (hguard _ (by simp [ends, hdata, hget]) hg)⟩
  | read =>
    obtain ⟨next, hnext, hsettled⟩ := hcompleting.readKey qrz others authenticated completion
    exact ⟨next, hnext, fun hg => hsettled
      (hguard _ (by simp [ends, endsRead, hdata, hget, Bool.or_assoc]) hg)⟩

theorem settled_start (env : ε) : Settled (Session.start { env } : Session (QRZState ε)) :=
  .inl ⟨rfl, rfl, rfl, rfl, rfl, rfl, rfl⟩

/-- No enabled event crashes a settled session, and an unpipelined one settles it again. -/
theorem settled_step {session : Session (QRZState ε)} (h : Settled session) {event : Event ε}
    (henabled : enabled session event = true) :
    Resumes (qrz.unpipelined session event = true)
      (qrz.step others authenticated session event) := by
  cases event with
  | read data =>
    obtain ⟨hreads, -, -⟩ := of_decide_eq_true henabled
    refine ⟨_, rfl, fun _ => ?_⟩
    rcases h with hreading | ⟨n, hwaiting⟩
    · let fed : Session (QRZState ε) :=
        { session with reads := session.reads - 1, buffer := data }
      have hturning : Turning none fed :=
        { current := hreading.current
          reads := by simp [fed, hreading.reads]
          pending := hreading.pending
          ref_eq := hreading.ref_eq
          wrote := hreading.wrote
          unfinished := hreading.unfinished
          safe := .inl rfl }
      have hle : fed.parsedTotal ≤ fed.buffer.length := by simp [fed, hreading.total]
      exact (hturning.handleRead qrz others authenticated hle).imp_right And.right
    · exact absurd hwaiting.reads hreads
  | change env =>
    refine ⟨_, rfl, fun _ => ?_⟩
    rcases h with ⟨h1, h2, h3, h4, h5, h6, h7⟩ | ⟨n, h1, h2, h3, h4, h5, h6, h7, h8⟩
    · exact .inl ⟨h1, h2, h3, h4, h5, h6, h7⟩
    · exact .inr ⟨n, h1, h2, h3, h4, h5, h6, h7, h8⟩
  | complete index completion =>
    have hindex : index < session.modules.pending.length := of_decide_eq_true henabled
    rcases h with hreading | ⟨n, hwaiting⟩
    · simp [hreading.pending] at hindex
    · exact hwaiting.complete qrz others authenticated hindex completion

/-! ## Whole runs -/

/-- Whenever an operation can complete, the exchange belongs to the request that the session waits
for, and every request is answered once, through its own reply, in order. -/
structure AnswersOwn (session : Session (QRZState ε)) : Prop where
  own : ∀ index completion, enabled session (.complete index completion) = true →
    ∃ n, replyRef session.modules = some n ∧ session.currentReply = some n
  written : session.written.map Prod.fst = List.range session.written.length
  idle : session.currentReply = none →
    session.modules.pending = [] ∧ session.written.length = session.replies.length
  waiting : ∀ n, session.currentReply = some n → session.modules.pending.length = 1 ∧
    session.written.length = n ∧ session.replies.length = n + 1

theorem Settled.answersOwn {session : Session (QRZState ε)} (h : Settled session) :
    AnswersOwn session := by
  rcases h with hreading | ⟨n, hwaiting⟩
  · have hlen := hreading.wrote.length
    exact {
      own := fun index completion henabled => by
        have hindex : index < session.modules.pending.length := of_decide_eq_true henabled
        simp [hreading.pending] at hindex
      written := by rw [hlen]; exact hreading.wrote
      idle := fun _ => ⟨hreading.pending, hlen⟩
      waiting := by simp [hreading.current] }
  · have hlen := hwaiting.wrote.length
    exact {
      own := fun _ _ _ => ⟨n, hwaiting.ref_eq, hwaiting.current⟩
      written := by rw [hlen]; exact hwaiting.wrote
      idle := by simp [hwaiting.current]
      waiting := by
        intro m hm
        obtain rfl : n = m := Option.some.inj (hwaiting.current.symm.trans hm)
        exact ⟨hwaiting.pending, hlen, hwaiting.last⟩ }

/-- In every run in which no exchange ends while a further `/qrz` request is buffered, each exchange
answers the request it was started for, and no event crashes the server. -/
theorem answersOwn_of_unpipelined (env : ε) (events : List (Event ε))
    (session : Session (QRZState ε))
    (hrun : (qrz.system others authenticated env).Run qrz.unpipelined events session) :
    AnswersOwn session ∧ ∀ event, enabled session event = true →
      (qrz.step others authenticated session event).isSome := by
  have hsettled : Settled session := by
    refine System.Run.invariant (I := fun _ s => Settled s) (settled_start env) ?_ hrun
    intro past s event t ih henabled hguard hstep
    obtain ⟨next, hnext, hsettled⟩ := settled_step qrz others authenticated ih henabled
    obtain rfl : next = t := Option.some.inj (hnext.symm.trans hstep)
    exact hsettled hguard
  refine ⟨hsettled.answersOwn, fun event henabled => ?_⟩
  obtain ⟨next, hnext, -⟩ := settled_step qrz others authenticated hsettled henabled
  simp [hnext]

/-- A service that knows every call sign, asked for one user. -/
def sampleQrz : QRZ Unit where
  parse _ := { callsign := some (bytes "fname", bytes "name") }
  select _ := some (bytes "ok2jrq", bytes "secret")
  insert _ _ _ := (true, ())
  update _ _ _ := (true, ())

/-- Two clients' requests for a call sign, as one read brings them. -/
def lookup : Bytes := bytes "POST /qrz HTTP/1.1\r\nContent-Length: 1\r\n\r\na\r\n"

/-- One request and its exchange, and then the next request. -/
def sampleEvents : List (Event Unit) :=
  [.read lookup, .complete 0 {}, .complete 0 {}, .complete 0 {}, .read lookup]

theorem answersOwn_sampleEvents :
    ∃ session : Session (QRZState Unit), AnswersOwn session ∧ ∀ event,
      enabled session event = true →
        (sampleQrz.step [] (fun _ => true) session event).isSome := by
  have hexec : (System.exec (sampleQrz.system [] (fun _ => true) ()) sampleQrz.unpipelined
    (Session.start { env := () }) sampleEvents).isSome = true := by decide
  obtain ⟨session, hsession⟩ := Option.isSome_iff_exists.mp hexec
  exact ⟨session, answersOwn_of_unpipelined sampleQrz [] (fun _ => true) () sampleEvents session
    (System.run_of_exec hsession)⟩

/-- Two requests in one read: the failed connection of the first one answers it, which starts the
second exchange, and then the pointer of the second exchange is reset. -/
def pipelinedEvents : List (Event Unit) :=
  [.read (lookup ++ lookup), .complete 0 { failed := true }]

theorem not_answersOwn_pipelined :
    ¬ ∀ (qrz : QRZ Unit) (others : List (Responder Unit Unit)) (authenticated : Unit → Bool)
      (events : List (Event Unit)) (session : Session (QRZState Unit)),
      (qrz.system others authenticated ()).Run (fun _ _ => true) events session →
        AnswersOwn session := by
  intro h
  let result := System.exec (sampleQrz.system [] (fun _ => true) ()) (fun _ _ => true)
    (Session.start { env := () }) pipelinedEvents
  have hstate : result.map (fun session =>
      (replyRef session.modules, session.modules.pending)) = some (none, [.connect]) := by decide
  obtain ⟨session, hsession, hpair⟩ := Option.map_eq_some_iff.mp hstate
  obtain ⟨href, hpending⟩ := Prod.mk.inj hpair
  have howns := h sampleQrz [] (fun _ => true) pipelinedEvents session (System.run_of_exec hsession)
  obtain ⟨n, hn, -⟩ := howns.own 0 {} (by simp [enabled, hpending])
  simp [href] at hn

end Hamlog.Server.QRZ
