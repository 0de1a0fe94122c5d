import Hamlog.Foundation.Simulation
import Hamlog.Server.SessionOrder

/-! # The server over all its connections

`Server` accepts connections, `SessionManager` keeps the sessions that have not
stopped, and every session reads its socket and passes its requests to the
modules, which all sessions share. Reads, errors and late replies of different
sessions come in any order. The sessions are numbered in the order in which they
are accepted. The requests that reach the modules are those that each session's
own bytes contain, interleaved.
-/
namespace Hamlog.Server
open Foundation Wire RequestParser

/-- What the server needs of the modules: the answer to a request of a session, a change that the
modules make on their own, `handleSessionFinished`, and whether an exception has ended the
server. -/
structure Modules (σ χ : Type*) where
  answer : ℕ → σ → Request → Reply × σ
  change : χ → σ → σ
  finished : ℕ → σ → χ
  crashed : σ → Bool
  crashed_answer : ∀ {sid state} request, crashed state = true →
    crashed (answer sid state request).2 = true
  crashed_change : ∀ c state, crashed (change c state) = crashed state

/-- The server and its session manager; `sessions` is the list `m_sessions`. -/
structure SessionManager (σ : Type*) where
  listening : Bool := true
  accepted : ℕ := 0
  sessions : List ℕ := []
  session : ℕ → Session σ
  modules : σ

namespace SessionManager
variable {σ χ : Type*} (M : Modules σ χ)

inductive Event (χ : Type*) where
  | accept
  | acceptFailed
  | read (sid : ℕ) (data : Bytes)
  | readFailed (sid : ℕ)
  | change (c : χ)
  | complete (sid : ℕ) (c : χ) (reply : Reply)

/-- `RequestHandler::handleRequest` of a session. -/
def requestHandler (sid : ℕ) : RequestHandler σ := fun state _ request =>
  (M.answer sid state request).swap

/-- The session as it looks at the modules now. -/
def present (server : SessionManager σ) (sid : ℕ) : Session σ :=
  { server.session sid with modules := server.modules }

/-- The session whose read has failed. -/
def broken (server : SessionManager σ) (sid : ℕ) : Session σ :=
  { server.present sid with reads := (server.present sid).reads - 1 }.stop

/-- The session for which a module has completed the reply with the number `id`. -/
def completed (server : SessionManager σ) (sid id : ℕ) (c : χ) (reply : Reply) : Session σ :=
  { server.present sid with
    modules := M.change c server.modules
    replies := (server.present sid).replies.set id reply }

/-- What a handler of a session leaves. A session that has stopped tells the modules and is taken
off the list. -/
def settle (server : SessionManager σ) (sid : ℕ) (next : Session σ) : SessionManager σ :=
  let stopped := (server.session sid).stops ≠ next.stops
  { server with
    session := Function.update server.session sid next
    modules := if stopped then M.change (M.finished sid next.modules) next.modules else next.modules
    sessions := if stopped then server.sessions.filter (· ≠ sid) else server.sessions }

theorem settle_session (server : SessionManager σ) (sid : ℕ) (next : Session σ) :
    (server.settle M sid next).session = Function.update server.session sid next := rfl

/-- A socket that was closed by `stop` delivers no bytes. -/
def enabled (server : SessionManager σ) : Event χ → Bool
  | .accept | .acceptFailed => server.listening
  | .read sid data => sid < server.accepted && (server.session sid).stops = 0 &&
      (server.session sid).enabled (.read data)
  | .readFailed sid => sid < server.accepted && (server.session sid).reads ≠ 0
  | .change _ => true
  | .complete sid _ reply => sid < server.accepted &&
      (server.session sid).enabled (.complete server.modules reply)

/-- An event, before it is looked at whether the server has crashed. -/
def next (server : SessionManager σ) : Event χ → Option (SessionManager σ)
  | .accept => some { server with
      accepted := server.accepted + 1
      sessions := server.sessions ++ [server.accepted]
      session := Function.update server.session server.accepted (Session.start server.modules) }
  | .acceptFailed => some { server with listening := false }
  | .read sid data =>
    some (server.settle M sid ((server.present sid).readDone (requestHandler M sid) data))
  | .readFailed sid => some (server.settle M sid (server.broken sid))
  | .change c => some { server with modules := M.change c server.modules }
  | .complete sid c reply =>
    match (server.session sid).currentReply with
    | none => none
    | some id =>
      ((server.completed M sid id c reply).sendAsyncReply (requestHandler M sid)).map
        (server.settle M sid)

theorem next_complete {server : SessionManager σ} {sid id : ℕ}
    (h : (server.session sid).currentReply = some id) (c : χ) (reply : Reply) :
    server.next M (.complete sid c reply) = some (server.settle M sid
      (((server.completed M sid id c reply).sendCurrent id).handleRead (requestHandler M sid))) := by
  have hcompleted : (server.completed M sid id c reply).currentReply = some id := h
  simp only [next, h, Session.sendAsyncReply_some _ hcompleted, Option.map_some]

def step (server : SessionManager σ) (event : Event χ) : Option (SessionManager σ) :=
  (server.next M event).filter fun server => !M.crashed server.modules

def system (modules : σ) : System (SessionManager σ) (Event χ) where
  start := { session := fun _ => { modules }, modules }
  enabled := enabled
  step := step M

abbrev Run (modules : σ) (events : List (Event χ)) (server : SessionManager σ) : Prop :=
  System.Run (system M modules) (fun _ _ => true) events server

/-- The bytes that a session has received. -/
def received (sid : ℕ) (events : List (Event χ)) : Bytes :=
  events.flatMap fun
    | .read other data => if other = sid then data else []
    | _ => []

/-! ## The modules by themselves -/

inductive ModuleEvent (χ : Type*) where
  | request (sid : ℕ) (request : Request)
  | change (c : χ)

def moduleSystem (modules : σ) : System σ (ModuleEvent χ) where
  start := modules
  enabled _ _ := true
  step
    | state, .request sid request =>
      some ((M.answer sid state request).2) |>.filter fun state => !M.crashed state
    | state, .change c => some (M.change c state)

abbrev ModuleRun (modules : σ) (past : List (ModuleEvent χ)) (state : σ) : Prop :=
  System.Run (moduleSystem M modules) (fun _ _ => true) past state

/-- The requests of a session among the events of the modules. -/
def requestsOf (sid : ℕ) (past : List (ModuleEvent χ)) : List Request :=
  past.filterMap fun
    | .request other request => if other = sid then some request else none
    | .change _ => none

/-- The requests that a stream of bytes contains. -/
def requestsIn (stream : Bytes) : List Request := (decoder.feed initial stream).1.map Prod.snd

/-! ## The interleaving -/

variable {M}

/-- The state behind requests of one session. -/
def answers (M : Modules σ χ) (sid : ℕ) (state : σ) (requests : List Request) : σ :=
  requests.foldl (fun state request => (M.answer sid state request).2) state

theorem crashed_answers {sid : ℕ} {state : σ} (requests : List Request)
    (h : M.crashed state = true) : M.crashed (answers M sid state requests) = true := by
  induction requests generalizing state with
  | nil => exact h
  | cons request requests ih => exact ih (M.crashed_answer request h)

/-- The loop of a session gives the modules the requests that it dispatches, in order. -/
theorem readLoop_modules (sid fuel : ℕ) (session : Session σ) :
    ∃ requests, (session.readLoop (requestHandler M sid) fuel).dispatched =
        session.dispatched ++ requests ∧
      (session.readLoop (requestHandler M sid) fuel).modules =
        answers M sid session.modules requests := by
  induction fuel generalizing session with
  | zero => exact ⟨[], by simp [Session.readLoop], rfl⟩
  | succ fuel ih =>
    simp only [Session.readLoop]
    split_ifs
    · exact ⟨[], by simp [Session.startRead], rfl⟩
    · exact ⟨[], by simp [Session.startRead, Session.stop, Session.advance], rfl⟩
    · exact ⟨[_], rfl, rfl⟩
    · obtain ⟨requests, hdispatched, hmodules⟩ := ih (((session.advance _).dispatch
        (requestHandler M sid)).writeReply session.replies.length)
      refine ⟨_ :: requests, ?_, hmodules⟩
      rw [List.append_cons]
      exact hdispatched
    · exact ih _

theorem handleRead_modules (sid : ℕ) (session : Session σ) :
    ∃ requests, (session.handleRead (requestHandler M sid)).dispatched =
        session.dispatched ++ requests ∧
      (session.handleRead (requestHandler M sid)).modules =
        answers M sid session.modules requests :=
  readLoop_modules sid _ session

theorem exec_answers (modules : σ) {sid : ℕ} {state : σ} {requests : List Request}
    (h : M.crashed (answers M sid state requests) = false) :
    System.exec (moduleSystem M modules) (fun _ _ => true) state
      (requests.map (.request sid)) = some (answers M sid state requests) := by
  induction requests generalizing state with
  | nil => rfl
  | cons request requests ih =>
    have hrest : M.crashed (M.answer sid state request).2 = false := by
      by_contra hcrashed
      rw [Bool.not_eq_false] at hcrashed
      exact Bool.false_ne_true (h.symm.trans (crashed_answers requests hcrashed))
    rw [List.map_cons, System.exec]
    simp only [moduleSystem, Bool.and_self, if_true, hrest, Bool.not_false, Option.filter_some,
      Option.bind_some]
    exact ih h

theorem requestsOf_append (sid : ℕ) (past more : List (ModuleEvent χ)) :
    requestsOf sid (past ++ more) = requestsOf sid past ++ requestsOf sid more :=
  List.filterMap_append

theorem requestsOf_map (sid other : ℕ) (requests : List Request) :
    requestsOf (χ := χ) other (requests.map (.request sid)) =
      if sid = other then requests else [] := by
  induction requests with
  | nil => simp [requestsOf]
  | cons request requests ih =>
    unfold requestsOf at ih ⊢
    rw [List.map_cons, List.filterMap_cons, ih]
    split_ifs with h
    · simp [h]
    · simp [h]

/-- The modules behind a handler of a session: they have answered its requests, and have been told
if it has stopped. -/
theorem exec_settle (modules : σ) (server : SessionManager σ) {sid : ℕ} {next : Session σ}
    {state : σ} {requests : List Request}
    (hdispatched : next.dispatched = (server.session sid).dispatched ++ requests)
    (hmodules : next.modules = answers M sid state requests)
    (hcrashed : M.crashed (server.settle M sid next).modules = false) :
    ∃ events, System.exec (moduleSystem M modules) (fun _ _ => true) state events =
        some (server.settle M sid next).modules ∧
      ∀ other, (server.session other).dispatched ++ requestsOf other events =
        ((server.settle M sid next).session other).dispatched := by
  have hsessions (other : ℕ) (more : List (ModuleEvent χ)) (hmore : requestsOf other more = []) :
      (server.session other).dispatched ++ requestsOf other (requests.map (.request sid) ++ more) =
        ((server.settle M sid next).session other).dispatched := by
    rw [requestsOf_append, hmore, List.append_nil, requestsOf_map, settle_session]
    by_cases hother : sid = other
    · subst hother
      rw [if_pos rfl, Function.update_self, hdispatched]
    · rw [if_neg hother, Function.update_of_ne (Ne.symm hother), List.append_nil]
  simp only [settle] at hcrashed
  split_ifs at hcrashed with hstopped
  · rw [M.crashed_change, hmodules] at hcrashed
    refine ⟨requests.map (.request sid) ++ [.change (M.finished sid next.modules)], ?_,
      fun other => hsessions other _ rfl⟩
    rw [System.exec_append, exec_answers modules hcrashed, Option.bind_some, settle]
    dsimp only
    rw [if_pos hstopped, hmodules]
    rfl
  · rw [hmodules] at hcrashed
    refine ⟨requests.map (.request sid), ?_, fun other => ?_⟩
    · rw [settle]
      dsimp only
      rw [if_neg hstopped, hmodules]
      exact exec_answers modules hcrashed
    · simpa using hsessions other [] rfl

/-- The requests of the modules are those of the sessions, each in its own order; a session that is
not accepted yet has none. -/
structure Interleaved (past : List (ModuleEvent χ)) (server : SessionManager σ) : Prop where
  requests : ∀ sid, requestsOf sid past = (server.session sid).dispatched
  fresh : ∀ sid, server.accepted ≤ sid → (server.session sid).dispatched = []

theorem Interleaved.settle {past events : List (ModuleEvent χ)} {server : SessionManager σ} {sid : ℕ}
    {next : Session σ} (h : Interleaved past server) (hsid : sid < server.accepted)
    (hevents : ∀ other, (server.session other).dispatched ++ requestsOf other events =
      ((server.settle M sid next).session other).dispatched) :
    Interleaved (past ++ events) (server.settle M sid next) := by
  constructor
  · intro other
    rw [requestsOf_append, h.requests]
    exact hevents other
  · intro other hother
    have hne : other ≠ sid := by
      rintro rfl
      exact absurd hother (by simp only [SessionManager.settle]; omega)
    rw [settle_session, Function.update_of_ne hne]
    exact h.fresh other hother

theorem Interleaved.same {past events : List (ModuleEvent χ)} {server next : SessionManager σ}
    (h : Interleaved past server) (hevents : ∀ sid, requestsOf sid events = [])
    (haccepted : server.accepted ≤ next.accepted)
    (hsame : ∀ sid, (next.session sid).dispatched = (server.session sid).dispatched) :
    Interleaved (past ++ events) next := by
  constructor
  · intro sid
    rw [requestsOf_append, hevents, List.append_nil, h.requests, hsame]
  · intro sid hsid
    rw [hsame, h.fresh sid (by omega)]

/-- The modules are run by the requests of all sessions, as if these came to them directly. -/
theorem simulation (modules : σ) :
    System.Simulation (system M modules) (moduleSystem M modules) (fun _ _ => true)
      (fun _ _ => true) (fun _ past server state =>
        state = server.modules ∧ Interleaved past server) where
  start := ⟨rfl, ⟨fun _ => rfl, fun _ _ => rfl⟩⟩
  step := by
    rintro events past server state event server' ⟨rfl, hinter⟩ henabled - hstep
    obtain ⟨hnext, hcrashed⟩ := Option.filter_eq_some_iff.mp hstep
    rw [Bool.not_eq_true'] at hcrashed
    cases event with
    | accept =>
      cases hnext
      refine ⟨[], _, rfl, rfl, hinter.same (fun _ => rfl) (Nat.le_succ _) fun sid => ?_⟩
      dsimp only
      by_cases hsid : sid = server.accepted
      · rw [hsid, Function.update_self, hinter.fresh _ le_rfl]
        rfl
      · rw [Function.update_of_ne hsid]
    | acceptFailed =>
      cases hnext
      exact ⟨[], _, rfl, rfl, hinter.same (fun _ => rfl) le_rfl fun _ => rfl⟩
    | change c =>
      cases hnext
      exact ⟨[.change c], _, rfl, rfl, hinter.same (fun _ => rfl) le_rfl fun _ => rfl⟩
    | read sid data =>
      cases hnext
      simp only [system, enabled, Bool.and_eq_true, decide_eq_true_eq] at henabled
      obtain ⟨requests, hdispatched, hmodules⟩ := handleRead_modules (M := M) sid
        { server.present sid with reads := (server.present sid).reads - 1, buffer := data }
      obtain ⟨more, hexec, hmore⟩ := exec_settle modules server hdispatched hmodules hcrashed
      exact ⟨more, _, hexec, rfl, hinter.settle henabled.1.1 hmore⟩
    | readFailed sid =>
      cases hnext
      simp only [system, enabled, Bool.and_eq_true, decide_eq_true_eq] at henabled
      have hdispatched : (server.broken sid).dispatched = (server.session sid).dispatched ++ [] :=
        (List.append_nil _).symm
      obtain ⟨more, hexec, hmore⟩ := exec_settle (M := M) modules server hdispatched rfl
        hcrashed
      exact ⟨more, _, hexec, rfl, hinter.settle henabled.1 hmore⟩
    | complete sid c reply =>
      simp only [system, enabled, Bool.and_eq_true, decide_eq_true_eq] at henabled
      obtain ⟨id, hcurrent⟩ := Option.isSome_iff_exists.mp henabled.2
      rw [next_complete M hcurrent, Option.some.injEq] at hnext
      subst hnext
      obtain ⟨requests, hdispatched, hmodules⟩ := handleRead_modules (M := M) sid
        ((server.completed M sid id c reply).sendCurrent id)
      obtain ⟨more, hexec, hmore⟩ := exec_settle modules server hdispatched hmodules hcrashed
      exact ⟨.change c :: more, _, hexec, rfl, hinter.settle henabled.1 hmore⟩

/-! ## The bytes of a session -/

/-- The bytes that are parsed contain the requests that were dispatched. -/
theorem dispatched_prefix {session : Session σ} {parsed : Bytes} (h : session.Parsed parsed)
    (rest : Bytes) : session.dispatched <+: requestsIn (parsed ++ rest) := by
  obtain ⟨messages, hfeed, hmap⟩ := h.feed
  rw [requestsIn, decoder.feed_append hfeed, List.map_append, hmap]
  exact List.prefix_append _ _

theorem requestsIn_eq {session : Session σ} {stream : Bytes} (h : session.Parsed stream) :
    requestsIn stream = session.dispatched := by
  obtain ⟨messages, hfeed, hmap⟩ := h.feed
  rw [requestsIn, hfeed, hmap]

/-- What every turn of the loop, and its end, have dispatched. -/
theorem prefix_rule (handler : RequestHandler σ) (stream : Bytes) (stops : ℕ) :
    Session.LoopRule handler
      (fun session => session.Turning stream ∧ session.stops = stops)
      (fun session => session.LoopEnd stream stops ∧ session.dispatched <+: requestsIn stream) where
  last h hend := by
    obtain ⟨parsed, rfl, hparsed⟩ := h.1.split
    exact ⟨(Session.turning_rule handler _ stops).last h hend, dispatched_prefix hparsed _⟩
  reject h hp := by
    obtain ⟨parsed, rfl, hparsed⟩ := h.1.split
    exact ⟨(Session.turning_rule handler _ stops).reject h hp, dispatched_prefix hparsed _⟩
  more h hne hp := (Session.turning_rule handler _ stops).more h hne hp
  async h hdata hp hasync := by
    have hleft := (Session.turning_rule handler _ stops).async h hdata hp hasync
    obtain ⟨parsed, hsplit, hparsed⟩ := h.1.split
    refine ⟨hleft, ?_⟩
    rw [hsplit, hdata, ← List.append_assoc]
    exact dispatched_prefix (hparsed.done handler hp _) _
  sync h hdata hp hsync := (Session.turning_rule handler _ stops).sync h hdata hp hsync

/-- A session that has received `stream`: it is open, or it has stopped and waits for no reply. -/
structure Serves (stream : Bytes) (session : Session σ) : Prop where
  dispatched : session.dispatched <+: requestsIn stream
  open_ : session.stops = 0 → session.Settled stream
  stopped : session.stops ≠ 0 → session.currentReply = none

theorem serves_handleRead (handler : RequestHandler σ) {session : Session σ} {stream : Bytes}
    (h : session.Turning stream) (hle : session.parsedTotal ≤ session.buffer.length)
    (hopen : session.stops = 0) : Serves stream (session.handleRead handler) := by
  obtain ⟨parsed, -, hparsed⟩ := h.split
  obtain ⟨hend, hbegins⟩ := (prefix_rule handler stream 0).readLoop ⟨h, hopen⟩ hparsed.unfinished hle
    (show session.ahead.length < session.buffer.length - session.parsedTotal + 1 by
      simp [Session.ahead])
  rcases hend with ⟨hsettled, hstops⟩ | ⟨-, hstops, hcurrent⟩
  · exact ⟨hbegins, fun _ => hsettled, fun hne => absurd hstops hne⟩
  · exact ⟨hbegins, fun hzero => absurd (hstops.symm.trans hzero) (by omega), fun _ => hcurrent⟩

theorem Serves.modules {stream : Bytes} {session : Session σ} (h : Serves stream session)
    (modules : σ) : Serves stream { session with modules } :=
  ⟨h.dispatched, fun hopen => (h.open_ hopen).change modules, h.stopped⟩

theorem received_append (sid : ℕ) (events : List (Event χ)) (event : Event χ) :
    received sid (events ++ [event]) = received sid events ++ received sid [event] := by
  simp [received]

/-- The sessions behind a run, and the list of those that have not stopped. -/
structure Registered (events : List (Event χ)) (server : SessionManager σ) : Prop where
  serves : ∀ sid < server.accepted, Serves (received sid events) (server.session sid)
  unaccepted : ∀ sid, server.accepted ≤ sid → received sid events = []
  sessions : server.sessions =
    (List.range server.accepted).filter fun sid => (server.session sid).stops = 0

/-- An event that brings no bytes and leaves the sessions alone. -/
theorem Registered.same {events : List (Event χ)} {event : Event χ}
    {server next : SessionManager σ} (h : Registered events server)
    (hquiet : ∀ sid, received sid [event] = []) (haccepted : next.accepted = server.accepted)
    (hsession : next.session = server.session) (hsessions : next.sessions = server.sessions) :
    Registered (events ++ [event]) next := by
  refine ⟨fun sid hsid => ?_, fun sid hsid => ?_, ?_⟩
  · rw [received_append, hquiet, List.append_nil, hsession]
    exact h.serves sid (haccepted ▸ hsid)
  · rw [received_append, hquiet, List.append_nil]
    exact h.unaccepted sid (haccepted ▸ hsid)
  · rw [hsessions, h.sessions, haccepted, hsession]

/-- A handler of a session that was open or is stopped again. -/
theorem Registered.settle {events : List (Event χ)} {event : Event χ} {server : SessionManager σ}
    {sid : ℕ} {next : Session σ} (h : Registered events server) (hsid : sid < server.accepted)
    (hquiet : ∀ other, other ≠ sid → received other [event] = [])
    (hserves : Serves (received sid events ++ received sid [event]) next)
    (hstops : next.stops = (server.session sid).stops ∨ next.stops ≠ 0) :
    Registered (events ++ [event]) (server.settle M sid next) := by
  refine ⟨fun other hother => ?_, fun other hother => ?_, ?_⟩
  · rw [received_append, settle_session]
    by_cases hne : other = sid
    · subst hne
      rwa [Function.update_self]
    · rw [Function.update_of_ne hne, hquiet other hne, List.append_nil]
      exact h.serves other hother
  · have hne : other ≠ sid := by
      rintro rfl
      exact absurd hsid (Nat.not_lt.mpr hother)
    rw [received_append, hquiet other hne, List.append_nil]
    exact h.unaccepted other hother
  · have hstop (other : ℕ) : (Function.update server.session sid next other).stops =
        if other = sid then next.stops else (server.session other).stops := by
      rw [Function.update_apply]
      split_ifs <;> rfl
    have hsame : (server.settle M sid next).accepted = server.accepted := rfl
    rw [settle_session, hsame]
    simp only [SessionManager.settle, h.sessions, hstop]
    by_cases hne : (server.session sid).stops = next.stops
    · rw [if_neg (not_not.mpr hne)]
      apply List.filter_congr
      intro other _
      split_ifs with hother
      · rw [hother, hne]
      · rfl
    · have hstopped := hstops.resolve_left (Ne.symm hne)
      rw [if_pos hne, List.filter_filter]
      apply List.filter_congr
      intro other _
      split_ifs with hother
      · simp [hother, hstopped]
      · simp [hother]

theorem registered_start (modules : σ) :
    Registered (χ := χ) [] (system M modules).start :=
  ⟨fun _ h => absurd h (Nat.not_lt_zero _), fun _ _ => rfl, rfl⟩

theorem received_read (sid : ℕ) (data : Bytes) :
    received (χ := χ) sid [.read sid data] = data := by
  simp [received]

theorem registered_step {events : List (Event χ)} {server server' : SessionManager σ}
    {event : Event χ} (h : Registered events server) (henabled : server.enabled event = true)
    (hnext : server.next M event = some server') : Registered (events ++ [event]) server' := by
  cases event with
  | accept =>
    cases hnext
    refine ⟨fun sid hsid => ?_, fun sid hsid => ?_, ?_⟩
    · rw [received_append]
      have hnone : received (χ := χ) sid [.accept] = [] := rfl
      rw [hnone, List.append_nil]
      dsimp only at hsid ⊢
      by_cases hnew : sid = server.accepted
      · subst hnew
        rw [Function.update_self, h.unaccepted _ le_rfl]
        exact ⟨List.nil_prefix, fun _ => Session.settled_start _, fun hne => absurd rfl hne⟩
      · rw [Function.update_of_ne hnew]
        exact h.serves sid (by omega)
    · rw [received_append, h.unaccepted sid (by dsimp only at hsid; omega)]
      rfl
    · dsimp only
      rw [List.range_succ, List.filter_append, h.sessions]
      congr 1
      · apply List.filter_congr
        intro sid hsid
        simp only [Function.update_of_ne (List.mem_range.mp hsid).ne]
      · simp [Session.start, Session.startRead]
  | acceptFailed =>
    cases hnext
    exact h.same (fun _ => rfl) rfl rfl rfl
  | change c =>
    cases hnext
    exact h.same (fun _ => rfl) rfl rfl rfl
  | read sid data =>
    cases hnext
    simp only [enabled, Bool.and_eq_true, decide_eq_true_eq] at henabled
    obtain ⟨⟨hsid, hopen⟩, hread⟩ := henabled
    have hsettled : (server.present sid).Settled (received sid events) :=
      ((h.serves sid hsid).modules server.modules).open_ hopen
    obtain ⟨hreads, -, -⟩ := of_decide_eq_true hread
    obtain ⟨hturning, htotal⟩ := hsettled.read hreads data
    have hserves := serves_handleRead (requestHandler M sid) hturning
      (htotal.trans_le (Nat.zero_le _)) hopen
    refine h.settle hsid (fun other hne => ?_) ?_ ?_
    · simp [received, Ne.symm hne]
    · rw [received_read]
      exact hserves
    · by_cases hzero : ((server.present sid).readDone (requestHandler M sid) data).stops = 0
      · exact .inl (hzero.trans hopen.symm)
      · exact .inr hzero
  | readFailed sid =>
    cases hnext
    simp only [enabled, Bool.and_eq_true, decide_eq_true_eq] at henabled
    obtain ⟨hsid, hreads⟩ := henabled
    refine h.settle hsid (fun _ _ => rfl) ?_ (.inr (Nat.succ_ne_zero _))
    have hserves := h.serves sid hsid
    refine ⟨?_, fun hzero => absurd hzero (Nat.succ_ne_zero _), fun _ => ?_⟩
    · have hnone : received (χ := χ) sid [.readFailed sid] = [] := rfl
      rw [hnone, List.append_nil]
      exact hserves.dispatched
    · by_cases hopen : (server.session sid).stops = 0
      · rcases hserves.open_ hopen with ⟨hcurrent, -⟩ | ⟨_, _, -, hzero, -⟩
        · exact hcurrent
        · exact absurd hzero (by simpa using hreads)
      · exact hserves.stopped hopen
  | complete sid c reply =>
    simp only [enabled, Bool.and_eq_true, decide_eq_true_eq] at henabled
    obtain ⟨hsid, hwaits⟩ := henabled
    obtain ⟨id, hcurrent⟩ := Option.isSome_iff_exists.mp hwaits
    rw [next_complete M hcurrent, Option.some.injEq] at hnext
    subst hnext
    have hserves := h.serves sid hsid
    have hopen : (server.session sid).stops = 0 := by
      by_contra hne
      exact absurd ((hserves.stopped hne).symm.trans hcurrent) (by simp)
    obtain ⟨hturning, hle⟩ := (hserves.open_ hopen).complete hcurrent
      (M.change c server.modules) reply
    have hdone := serves_handleRead (requestHandler M sid) hturning hle hopen
    refine h.settle hsid (fun _ _ => rfl) ?_ ?_
    · have hnone : received (χ := χ) sid [.complete sid c reply] = [] := rfl
      rw [hnone, List.append_nil]
      exact hdone
    · by_cases hzero : (((server.completed M sid id c reply).sendCurrent id).handleRead
          (requestHandler M sid)).stops = 0
      · exact .inl (hzero.trans hopen.symm)
      · exact .inr hzero

theorem registered_of_run {modules : σ} {events : List (Event χ)} {server : SessionManager σ}
    (h : Run M modules events server) : Registered events server := by
  refine System.Run.invariant (I := fun events server => Registered events server)
    (registered_start modules) ?_ h
  intro past server event server' hregistered henabled _ hstep
  exact registered_step hregistered henabled (Option.filter_eq_some_iff.mp hstep).1

/-- The modules see first requests of the bytes of a session. -/
theorem Interleaved.prefix_requestsIn {past : List (ModuleEvent χ)} {events : List (Event χ)}
    {server : SessionManager σ} (hinter : Interleaved past server)
    (hregistered : Registered events server) (sid : ℕ) :
    requestsOf sid past <+: requestsIn (received sid events) := by
  rw [hinter.requests sid]
  by_cases hsid : sid < server.accepted
  · exact (hregistered.serves sid hsid).dispatched
  · rw [hinter.fresh sid (Nat.not_lt.mp hsid)]
    exact List.nil_prefix

/-- In every run over the raw bytes of all connections, the modules are in a state to which the
requests of the sessions lead when they are interleaved in some way. The requests of a session are
the first ones that its own bytes contain, and all of them when it is open and waits for no reply.
The session manager holds the sessions that have not stopped, each once, in the order in which they
were accepted. -/
theorem server_run {modules : σ} {events : List (Event χ)} {server : SessionManager σ}
    (h : Run M modules events server) :
    (∃ past, ModuleRun M modules past server.modules ∧
      ∀ sid, requestsOf sid past <+: requestsIn (received sid events) ∧
        (sid ∈ server.sessions → (server.session sid).currentReply = none →
          requestsOf sid past = requestsIn (received sid events))) ∧
      server.sessions =
        (List.range server.accepted).filter fun sid => (server.session sid).stops = 0 := by
  obtain ⟨past, state, hrun, rfl, hinter⟩ := (simulation modules).run h
  have hregistered := registered_of_run h
  refine ⟨⟨past, hrun, fun sid => ⟨hinter.prefix_requestsIn hregistered sid, ?_⟩⟩,
    hregistered.sessions⟩
  intro hmem hcurrent
  rw [hregistered.sessions, List.mem_filter, List.mem_range, decide_eq_true_eq] at hmem
  rw [hinter.requests sid]
  rcases (hregistered.serves sid hmem.1).open_ hmem.2 with
    ⟨-, -, -, hparsed, -⟩ | ⟨n, -, hwaits, -⟩
  · exact (requestsIn_eq hparsed).symm
  · exact absurd (hcurrent.symm.trans hwaits) (by simp)

end SessionManager
end Hamlog.Server
