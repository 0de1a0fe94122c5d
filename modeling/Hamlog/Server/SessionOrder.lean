import Hamlog.Server.Session

/-! # Order of requests and replies in a session

What a session parses, dispatches and writes over whole runs: reads of any
size, and replies that are sent at once or later. The bytes that the cursor
has passed are the part of the stream that the decoder of requests has read,
and every dispatched request is answered before the next one is.
-/
namespace Hamlog.Server
open Foundation Wire RequestParser

namespace Session
variable {μ : Type*} (handler : RequestHandler μ)

/-- What can happen to a session: data arrive, the modules change their state on their own or for
another session, or the module that is asked for a reply completes it and sends it. -/
inductive Event (μ : Type*) where
  | read (data : Bytes)
  | change (modules : μ)
  | complete (modules : μ) (reply : Reply)

def start (modules : μ) : Session μ := startRead { modules }

/-- A read completes when one was started, with some bytes that fit the buffer. A reply is completed
while the session waits for one. -/
def enabled (session : Session μ) : Event μ → Bool
  | .read data => session.reads ≠ 0 ∧ data ≠ [] ∧ data.length ≤ bufferSize
  | .change _ => true
  | .complete _ _ => session.currentReply.isSome

def step (session : Session μ) : Event μ → Option (Session μ)
  | .read data => some (session.readDone handler data)
  | .change modules => some { session with modules }
  | .complete modules reply =>
    match session.currentReply with
    | none => none
    | some id =>
      { session with modules, replies := session.replies.set id reply }.sendAsyncReply handler

def system (modules : μ) : System (Session μ) (Event μ) where
  start := start modules
  enabled := enabled
  step := step handler

/-- The bytes that the events bring. -/
def fed (events : List (Event μ)) : Bytes :=
  events.flatMap fun
    | .read data => data
    | .change _ => []
    | .complete _ _ => []

/-- The parser reads the stream to its end. -/
def Accepted (stream : Bytes) : Prop := ∃ t, (decoder.feed initial stream).2 = .ok t

/-- The session has read `parsed`: the decoder stands where its parser stands, the messages are the
dispatched requests, and each has a reply. -/
structure Parsed (session : Session μ) (parsed : Bytes) : Prop where
  feed : ∃ messages, decoder.feed initial parsed = (messages, .ok (session.parser, session.req)) ∧
    session.dispatched = messages.map Prod.snd
  replies : session.replies.length = session.dispatched.length
  unfinished : session.req.finished = false

/-- The first `n` replies were written, each once and in order. -/
def Wrote (session : Session μ) (n : ℕ) : Prop := session.written.map Prod.fst = List.range n

/-- Between two events: all bytes are parsed and all requests answered and a read is started, or the
session waits for the reply to the last request it dispatched. -/
def Settled (session : Session μ) (stream : Bytes) : Prop :=
  (session.currentReply = none ∧ session.reads = 1 ∧ session.parsedTotal = 0 ∧
      session.Parsed stream ∧ session.Wrote session.dispatched.length) ∨
    ∃ n parsed, session.currentReply = some n ∧ session.reads = 0 ∧
      session.parsedTotal ≤ session.buffer.length ∧ stream = parsed ++ session.ahead ∧
      session.Parsed parsed ∧ session.dispatched.length = n + 1 ∧ session.Wrote n

theorem Accepted.prefix_ok {xs ys : Bytes} (h : Accepted (xs ++ ys)) : Accepted xs := by
  obtain ⟨t, ht⟩ := h
  obtain ⟨messages, u, hu⟩ := decoder.feed_prefix_ok (Prod.ext rfl ht)
  exact ⟨u, by rw [hu]⟩

/-- What the decoder makes of the rest of an accepted stream. -/
theorem Parsed.feed_rest {session : Session μ} {parsed rest : Bytes} (h : session.Parsed parsed)
    (hok : Accepted (parsed ++ rest)) :
    ∃ messages t, decoder.feed (session.parser, session.req) rest = (messages, .ok t) := by
  obtain ⟨messages, hfeed, -⟩ := h.feed
  obtain ⟨t, ht⟩ := hok
  rw [decoder.feed_append hfeed] at ht
  exact ⟨_, t, Prod.ext rfl ht⟩

/-- One parse that ends inside a request moves the session over the whole rest. -/
theorem Parsed.more {session : Session μ} {parsed rest : Bytes} {t : State × Request}
    (h : session.Parsed parsed)
    (hp : decoder.parse (session.parser, session.req) rest = .more t) (n : ℕ) :
    (session.advance (n, t)).Parsed (parsed ++ rest) := by
  obtain ⟨messages, hfeed, hmap⟩ := h.feed
  have hunfinished : decoder.finished (session.parser, session.req) = false := h.unfinished
  refine ⟨⟨messages, ?_, hmap⟩, h.replies, decoder.more_unfinished hunfinished hp⟩
  rw [decoder.feed_append hfeed, decoder.feed_eq_parse (session.parser, session.req), hp]
  simp [advance]

/-- One parse that finishes a request, and the dispatch of the request. -/
theorem Parsed.done {session : Session μ} {parsed data : Bytes} {t : State × Request}
    (h : session.Parsed parsed)
    (hp : decoder.parse (session.parser, session.req) data = .done t []) (n : ℕ) :
    ((session.advance (n, t)).dispatch handler).Parsed (parsed ++ data) := by
  obtain ⟨messages, hfeed, hmap⟩ := h.feed
  refine ⟨⟨messages ++ [t], ?_, by simp [dispatch, advance, hmap]⟩,
    by simp [dispatch, advance, h.replies], rfl⟩
  rw [decoder.feed_append hfeed, decoder.feed_eq_parse (session.parser, session.req), hp]
  rfl

theorem writeReply_parsed {session : Session μ} {parsed : Bytes} (h : session.Parsed parsed)
    (id : ℕ) : (session.writeReply id).Parsed parsed :=
  ⟨h.feed, by simp [writeReply, h.replies], h.unfinished⟩

theorem writeReply_wrote {session : Session μ} {n : ℕ} (h : session.Wrote n) :
    (session.writeReply n).Wrote (n + 1) := by
  rw [Wrote] at h
  simp [Wrote, writeReply, h, List.range_succ]

/-- At a turn of the loop: the stream is what was parsed and what is ahead, every dispatched request
is answered, and no read is started. -/
structure Turning (stream : Bytes) (session : Session μ) : Prop where
  split : ∃ parsed, stream = parsed ++ session.ahead ∧ session.Parsed parsed
  current : session.currentReply = none
  reads : session.reads = 0
  wrote : session.Wrote session.dispatched.length

theorem ahead_advance (session : Session μ) {data rest : Bytes} (h : session.ahead = data ++ rest)
    (t : State × Request) : (session.advance (data.length, t)).ahead = rest := by
  have : (session.advance (data.length, t)).ahead = session.ahead.drop data.length := by
    simp [ahead, advance, List.drop_drop]
  rw [this, h, List.drop_left]

/-- Behind the loop: the session is settled and was not stopped, or it was stopped once, at a byte
that the parser refuses. -/
def LoopEnd (stream : Bytes) (stops : ℕ) (session : Session μ) : Prop :=
  (session.Settled stream ∧ session.stops = stops) ∨
    (¬Accepted stream ∧ session.stops = stops + 1 ∧ session.currentReply = none)

/-- The loop stops at the end of the buffer, at a request that is answered later, or at a byte that
the parser refuses. -/
theorem turning_rule (stream : Bytes) (stops : ℕ) :
    LoopRule handler (fun session => session.Turning stream ∧ session.stops = stops)
      (LoopEnd stream stops) where
  last := by
    rintro session ⟨⟨⟨parsed, hsplit, hparsed⟩, hcurrent, hreads, hwrote⟩, hstops⟩ hend
    rw [hend, List.append_nil] at hsplit
    exact .inl ⟨.inl ⟨hcurrent, by simp [startRead, hreads], rfl,
      ⟨hsplit ▸ hparsed.feed, hparsed.replies, hparsed.unfinished⟩, hwrote⟩, hstops⟩
  reject := by
    rintro session t e rest ⟨⟨⟨parsed, hsplit, hparsed⟩, hcurrent, -, -⟩, hstops⟩ hp
    refine .inr ⟨fun hok => ?_, by simp [startRead, stop, advance, hstops], hcurrent⟩
    rw [hsplit] at hok
    obtain ⟨messages, last, hrest⟩ := hparsed.feed_rest hok
    simp [decoder.feed_eq_parse, hp] at hrest
  more := by
    rintro session t ⟨⟨⟨parsed, hsplit, hparsed⟩, hcurrent, hreads, hwrote⟩, hstops⟩ - hp
    refine ⟨⟨⟨parsed ++ session.ahead, ?_, hparsed.more hp _⟩, hcurrent, hreads, hwrote⟩, hstops⟩
    rw [ahead_advance session (List.append_nil _).symm, List.append_nil, hsplit]
  async := by
    rintro session data rest t ⟨⟨⟨parsed, hsplit, hparsed⟩, -, hreads, hwrote⟩, hstops⟩ hdata hp -
    have hnext := hparsed.done handler hp data.length
    have hrest := ahead_advance session hdata t
    refine .inl ⟨.inr ⟨session.replies.length, parsed ++ data, rfl, hreads, ?_, ?_,
      ⟨hnext.feed, hnext.replies, hnext.unfinished⟩, ?_, ?_⟩, hstops⟩
    · exact afterRequest_total_le handler hdata hp
    · rw [hsplit, hdata, ← List.append_assoc]
      exact congrArg _ hrest.symm
    · simp [afterRequest, dispatch, advance, hparsed.replies]
    · rw [hparsed.replies]
      exact hwrote
  sync := by
    rintro session data rest t ⟨⟨⟨parsed, hsplit, hparsed⟩, hcurrent, hreads, hwrote⟩, hstops⟩
      hdata hp -
    have hrest := ahead_advance session hdata t
    refine ⟨⟨⟨parsed ++ data, ?_, writeReply_parsed (hparsed.done handler hp _) _⟩, hcurrent,
      hreads, ?_⟩, hstops⟩
    · rw [hsplit, hdata, ← List.append_assoc]
      exact congrArg _ hrest.symm
    · have hcount : ((session.afterRequest handler data.length t).writeReply
          session.replies.length).dispatched.length = session.dispatched.length + 1 := by
        simp [afterRequest, dispatch, advance, writeReply]
      rw [hcount, hparsed.replies]
      exact writeReply_wrote hwrote

theorem settled_start (modules : μ) : Settled (start modules) [] :=
  .inl ⟨rfl, rfl, rfl, ⟨⟨[], rfl, rfl⟩, rfl, rfl⟩, rfl⟩

/-- Running the loop settles the session or stops it. -/
theorem Turning.loopEnd {session : Session μ} {stream : Bytes} (h : session.Turning stream)
    (hle : session.parsedTotal ≤ session.buffer.length) :
    (session.handleRead handler).LoopEnd stream session.stops := by
  obtain ⟨parsed, -, hparsed⟩ := h.split
  refine (turning_rule handler stream session.stops).readLoop ⟨h, rfl⟩ hparsed.unfinished hle ?_
  simp [ahead]

theorem Turning.handleRead {session : Session μ} {stream : Bytes} (h : session.Turning stream)
    (hok : Accepted stream) (hle : session.parsedTotal ≤ session.buffer.length) :
    (session.handleRead handler).Settled stream := by
  rcases h.loopEnd handler hle with ⟨hsettled, -⟩ | ⟨hrefused, -⟩
  · exact hsettled
  · exact absurd hok hrefused

/-- A read completes in a settled session that has started one. -/
theorem Settled.read {session : Session μ} {stream : Bytes} (h : session.Settled stream)
    (hreads : session.reads ≠ 0) (data : Bytes) :
    { session with reads := session.reads - 1, buffer := data }.Turning (stream ++ data) ∧
      session.parsedTotal = 0 := by
  rcases h with ⟨hcurrent, hone, htotal, hparsed, hwrote⟩ | ⟨n, parsed, -, hzero, -⟩
  · exact ⟨⟨⟨stream, by simp [ahead, htotal],
      ⟨hparsed.feed, hparsed.replies, hparsed.unfinished⟩⟩, hcurrent, by simp [hone], hwrote⟩, htotal⟩
  · exact absurd hzero hreads

/-- The reply is sent that a settled session waits for. -/
theorem Settled.complete {session : Session μ} {stream : Bytes} (h : session.Settled stream)
    {n : ℕ} (hcurrent : session.currentReply = some n) (modules : μ) (reply : Reply) :
    Turning stream
        ({ session with modules, replies := session.replies.set n reply }.sendCurrent n) ∧
      session.parsedTotal ≤ session.buffer.length := by
  rcases h with ⟨hnone, -⟩ | ⟨m, parsed, hm, hzero, hle, hsplit, hparsed, hcount, hwrote⟩
  · exact absurd (hnone.symm.trans hcurrent) (by simp)
  · obtain rfl : m = n := Option.some.inj (hm.symm.trans hcurrent)
    refine ⟨⟨⟨parsed, ?_, ?_⟩, rfl, hzero, ?_⟩, hle⟩
    · simp [hsplit, ahead, sendCurrent, writeReply]
    · exact ⟨hparsed.feed, by simp [sendCurrent, writeReply, hparsed.replies], hparsed.unfinished⟩
    · have hfilled :
          { session with modules, replies := session.replies.set m reply }.Wrote m := hwrote
      have hwritten := writeReply_wrote hfilled
      rw [← hcount] at hwritten
      exact hwritten

theorem Settled.change {session : Session μ} {stream : Bytes} (h : session.Settled stream)
    (modules : μ) : { session with modules }.Settled stream := by
  rcases h with ⟨hcurrent, hone, htotal, hparsed, hwrote⟩ |
    ⟨n, parsed, hcurrent, hzero, hle, hsplit, hparsed, hcount, hwrote⟩
  · exact .inl ⟨hcurrent, hone, htotal, ⟨hparsed.feed, hparsed.replies, hparsed.unfinished⟩, hwrote⟩
  · exact .inr ⟨n, parsed, hcurrent, hzero, hle, hsplit,
      ⟨hparsed.feed, hparsed.replies, hparsed.unfinished⟩, hcount, hwrote⟩

/-- One event takes a settled session to a settled session, and none crashes it. -/
theorem settled_step {session : Session μ} {stream : Bytes} {event : Event μ}
    (h : session.Settled stream) (hok : Accepted (stream ++ fed [event]))
    (henabled : session.enabled event) :
    ∃ next, session.step handler event = some next ∧ next.Settled (stream ++ fed [event]) := by
  cases event with
  | read data =>
    obtain ⟨hreads, -, -⟩ := of_decide_eq_true henabled
    obtain ⟨hturning, htotal⟩ := h.read hreads data
    have hfed : fed [Event.read (μ := μ) data] = data := by simp [fed]
    rw [hfed] at hok ⊢
    exact ⟨_, rfl, hturning.handleRead handler hok (by simp [htotal])⟩
  | change modules =>
    refine ⟨_, rfl, ?_⟩
    simp only [fed, List.flatMap_cons, List.flatMap_nil, List.append_nil]
    exact h.change modules
  | complete modules reply =>
    obtain ⟨n, hcurrent⟩ := Option.isSome_iff_exists.mp henabled
    obtain ⟨hturning, hle⟩ := h.complete hcurrent modules reply
    simp only [fed, List.flatMap_cons, List.flatMap_nil, List.append_nil] at hok ⊢
    simp only [step, sendAsyncReply, hcurrent]
    exact ⟨_, rfl, hturning.handleRead handler hok hle⟩

theorem Wrote.length {session : Session μ} {n : ℕ} (h : session.Wrote n) :
    session.written.length = n := by
  rw [← List.length_map Prod.fst, h, List.length_range]

/-- Every second request is answered later. -/
def alternating : RequestHandler Unit := fun _ id _ => ((), { async := id % 2 = 1 })

def sampleEvents : List (Event Unit) :=
  [.read (bytes "GET /a HTTP/1.1\r\n\r\nGET /b HTTP/1.1\r\n\r\nGET /c"),
    .complete () { content := bytes "b" }, .read (bytes " HTTP/1.1\r\n\r\n")]

end Session
end Hamlog.Server
