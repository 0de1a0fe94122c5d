import Hamlog.Foundation.Runs
import Hamlog.Library.CsvWriter
import Hamlog.Library.Modules

/-! # Fetching from all modules of a type

`ham_callinfo_fetch` and `ham_dxcluster_fetch` send a request to every module of
their type and share a closure with the handlers of the replies, which counts
the requests and collects the data. The two differ in what they do with a second
reply and in whether they call the handler without data. No one calls it when
nothing was sent.
-/
namespace Hamlog.Library
open Foundation Wire

/-- `callInfo` and `dxclusterInfo`: the requests without a reply, the data collected so far (`none`
is NULL) and the handler of the caller. -/
structure FetchInfo where
  requests : ℤ := 0
  data : Option Bytes := none
  handler : Option ℕ
  uiData : ℕ
  deriving DecidableEq, Repr

/-- The handler of the caller is called, or the signal of the fetch is emitted. -/
inductive FetchEvent where
  | call (handler : ℕ) (data : Option Bytes) (error : ℤ) (uiData : ℕ)
  | signal (data : Option Bytes)
  deriving DecidableEq, Repr

/-! ## The replies -/

/-- The rows of the second table behind those of the first, as long as both have one. -/
def mergeLines : List (List Bytes) → List (List Bytes) → List (List Bytes)
  | first :: firsts, second :: seconds => (first ++ second) :: mergeLines firsts seconds
  | firsts, _ => firsts

/-- `start₁` and `start₂` are what the arrays of the two readers hold. -/
def hamCsvMerge (start₁ start₂ first second : Bytes) : Option Bytes :=
  (hamCsvParse start₁ first).bind fun parsed =>
    (hamCsvParse start₂ second).map fun lines => hamCsvFromList (mergeLines parsed lines)

/-- The data behind a reply; only those with status 200 count. -/
def collect (merge : Bytes → Bytes → Option Bytes) (data : Option Bytes) (reply : HAMReply) :
    Option (Option Bytes) :=
  if reply.status = 200 then
    match data with
    | none => some (some (hamReplyGetContent reply))
    | some data => (merge data (hamReplyGetContent reply)).map some
  else some data

def callHandler (info : FetchInfo) (data : Option Bytes) : List FetchEvent :=
  match info.handler with
  | none => []
  | some handler => [.call handler data 0 info.uiData]

/-- A response handler. The last reply frees the closure; `none` is an access outside of an
array. -/
def fetchResponse (merge : Bytes → Bytes → Option Bytes)
    (finish : FetchInfo → Option Bytes → List FetchEvent) (info : FetchInfo) (reply : HAMReply) :
    Option (Option FetchInfo × List FetchEvent) :=
  (collect merge info.data reply).map fun data =>
    if info.requests - 1 = 0 then (none, finish info data)
    else (some { info with requests := info.requests - 1, data }, [])

/-- `ham_callinfo_response` behind the last reply: without data nothing happens. -/
def finishCallinfo (info : FetchInfo) (data : Option Bytes) : List FetchEvent :=
  if data.isSome then callHandler info data ++ [.signal data] else []

def finishDxcluster (info : FetchInfo) (data : Option Bytes) : List FetchEvent :=
  callHandler info data ++ [.signal data]

def hamCallinfoResponse (start₁ start₂ : Bytes) :
    FetchInfo → HAMReply → Option (Option FetchInfo × List FetchEvent) :=
  fetchResponse (hamCsvMerge start₁ start₂) finishCallinfo

/-- The data of a second reply are dropped. -/
def hamDxclusterResponse : FetchInfo → HAMReply → Option (Option FetchInfo × List FetchEvent) :=
  fetchResponse (fun data _ => some data) finishDxcluster

/-! ## The requests -/

/-- The response handlers, as values of `HAMReplyHandler`. -/
def callinfoResponder : Handler := .client 0
def dxclusterResponder : Handler := .client 1

/-- The loop over the modules, for the closure with the number. A module without a URI would be a
null text. -/
def fetchModules (type : ℤ) (request : Bytes → HAMRequest) (responder : Handler) (closure : ℕ) :
    List HAMModule → HAMConnection → FetchInfo → Option (HAMConnection × FetchInfo)
  | [], connection, info => some (connection, info)
  | module :: modules, connection, info =>
    if module.type = type then
      match module.uri with
      | none => none
      | some uri =>
        fetchModules type request responder closure modules
          (hamConnectionSend connection (request uri) (some responder) closure).1
          { info with requests := info.requests + 1 }
    else fetchModules type request responder closure modules connection info

/-- `CALLINFO` and `DXCLUSTER` of `ModuleType`. -/
def callinfoType : ℤ := 1
def dxclusterType : ℤ := 2

def hamCallinfoFetch (connection : HAMConnection) (table : HAMHashTable HAMModule) (call : Bytes)
    (handler : Option ℕ) (uiData closure : ℕ) : Option (HAMConnection × FetchInfo) :=
  fetchModules callinfoType (fun uri => { method := bytes "POST", uri, content := some call })
    callinfoResponder closure (hamHashTableToList table) connection { handler, uiData }

def hamDxclusterFetch (connection : HAMConnection) (table : HAMHashTable HAMModule)
    (handler : Option ℕ) (uiData closure : ℕ) : Option (HAMConnection × FetchInfo) :=
  fetchModules dxclusterType (fun uri => { method := bytes "GET", uri })
    dxclusterResponder closure (hamHashTableToList table) connection { handler, uiData }

/-! ## Runs of a connected client -/

inductive FetchKind where
  | callinfo (call : Bytes)
  | dxcluster
  deriving DecidableEq, Repr

namespace FetchKind

def responder : FetchKind → Handler
  | .callinfo _ => callinfoResponder
  | .dxcluster => dxclusterResponder

def fetch (connection : HAMConnection) (table : HAMHashTable HAMModule) (handler : Option ℕ)
    (uiData closure : ℕ) : FetchKind → Option (HAMConnection × FetchInfo)
  | .callinfo call => hamCallinfoFetch connection table call handler uiData closure
  | .dxcluster => hamDxclusterFetch connection table handler uiData closure

def merge (start₁ start₂ : Bytes) : FetchKind → Bytes → Bytes → Option Bytes
  | .callinfo _ => hamCsvMerge start₁ start₂
  | .dxcluster => fun data _ => some data

def finish : FetchKind → FetchInfo → Option Bytes → List FetchEvent
  | .callinfo _ => finishCallinfo
  | .dxcluster => finishDxcluster

end FetchKind

/-- A reply, with what the arrays of the CSV readers hold when it comes. -/
structure Answer where
  reply : HAMReply
  start₁ : Bytes
  start₂ : Bytes

/-- What is remembered of a fetch: how it was called, and the replies to its requests. -/
structure Fetch where
  kind : FetchKind
  handler : Option ℕ
  uiData : ℕ
  answers : List Answer := []

/-- The closures by their numbers (`none` is freed), and beside them every fetch that was made, the
calls and signals of each, and the closure whose response left an array. -/
structure Client where
  connection : HAMConnection
  infos : ℕ → Option FetchInfo := fun _ => none
  fetches : List Fetch := []
  log : List (ℕ × FetchEvent) := []
  crashed : Option ℕ := none

inductive ClientEvent where
  | fetch (kind : FetchKind) (table : HAMHashTable HAMModule) (handler : Option ℕ) (uiData : ℕ)
  | send (request : HAMRequest) (handler : Option Handler) (uiData : ℕ)
  | reply (answer : Answer)

/-- The response handler that a queued handler is, if it is one. -/
def responseOf (answer : Answer) :
    Option Handler → Option (FetchInfo → HAMReply → Option (Option FetchInfo × List FetchEvent))
  | some (.client 0) => some (hamCallinfoResponse answer.start₁ answer.start₂)
  | some (.client 1) => some hamDxclusterResponse
  | _ => none

def isResponder (handler : Option Handler) : Bool :=
  handler = some callinfoResponder || handler = some dxclusterResponder

/-- A reply goes to the first queued handler. What that calls on the connection is left to later
events. -/
def Client.receive (client : Client) (answer : Answer) : Client :=
  let connection :=
    (deliver (fun _ _ _ => []) { client.connection with reply := answer.reply }).1
  match client.connection.handlers with
  | [] => { client with connection }
  | tuple :: _ =>
    match responseOf answer tuple.handler with
    | none => { client with connection }
    | some response =>
      let closure := tuple.uiData
      let fetches := client.fetches.modify closure fun fetch =>
        { fetch with answers := fetch.answers ++ [answer] }
      match (client.infos closure).bind (response · answer.reply) with
      | none => { client with connection, fetches, crashed := some closure }
      | some (info, events) =>
        { client with
          connection, fetches
          infos := Function.update client.infos closure info
          log := client.log ++ events.map (closure, ·) }

/-- The client over a connection with the descriptor. Other requests have other handlers. -/
def fetchSystem (fd : ℤ) : System Client ClientEvent where
  start := { connection := { fd } }
  enabled client event :=
    client.crashed.isNone &&
      match event with
      | .send _ handler _ => !isResponder handler
      | _ => true
  step client event :=
    match event with
    | .fetch kind table handler uiData =>
      let closure := client.fetches.length
      (kind.fetch client.connection table handler uiData closure).map fun (connection, info) =>
        { client with
          connection
          infos := Function.update client.infos closure (some info)
          fetches := client.fetches ++ [⟨kind, handler, uiData, []⟩] }
    | .send request handler uiData =>
      some { client with
        connection := (hamConnectionSend client.connection request handler uiData).1 }
    | .reply answer => some (client.receive answer)

/-! ## What is stated of a fetch -/

/-- The requests of a fetch that are not answered. -/
def awaited (client : Client) (closure : ℕ) : ℕ :=
  client.connection.handlers.countP fun tuple =>
    isResponder tuple.handler && decide (tuple.uiData = closure)

def FetchEvent.isCall : FetchEvent → Bool
  | .call _ _ _ _ => true
  | .signal _ => false

/-- The calls of the caller's handler. -/
def callsOf (client : Client) (closure : ℕ) : List FetchEvent :=
  (client.log.filter (·.1 = closure)).map (·.2) |>.filter FetchEvent.isCall

/-- The handler is called once, when no request of the fetch is unanswered any more, with data or
with an error. -/
def CompletesOnce (client : Client) (closure handler uiData : ℕ) : Prop :=
  client.crashed ≠ some closure ∧
    if awaited client closure = 0 then
      ∃ data error, callsOf client closure = [.call handler data error uiData] ∧
        (data ≠ none ∨ error ≠ 0)
    else callsOf client closure = []

/-- The data that the answers make up, if every merge stays inside its arrays. -/
def mergeAnswers (kind : FetchKind) : Option Bytes → List Answer → Option (Option Bytes)
  | data, [] => some data
  | data, answer :: answers =>
    (collect (kind.merge answer.start₁ answer.start₂) data answer.reply).bind
      (mergeAnswers kind · answers)

/-- The merges stay inside their arrays, and when all requests are answered, one was answered with
status 200. -/
def Answered (client : Client) (closure : ℕ) (fetch : Fetch) : Prop :=
  (mergeAnswers fetch.kind none fetch.answers).isSome ∧
    (awaited client closure = 0 → ∃ answer ∈ fetch.answers, answer.reply.status = 200)

/-! ## The steps -/

theorem fetchModules_eq {type : ℤ} {request : Bytes → HAMRequest} {responder : Handler}
    {closure : ℕ} {modules : List HAMModule} {connection after : HAMConnection}
    {info last : FetchInfo} (hfd : connection.fd ≠ -1)
    (h : fetchModules type request responder closure modules connection info = some (after, last)) :
    ∃ sent : ℕ, after.fd = connection.fd ∧
      after.handlers = connection.handlers ++ List.replicate sent ⟨some responder, closure⟩ ∧
      last = { info with requests := info.requests + sent } := by
  induction modules generalizing connection info with
  | nil =>
    cases h
    exact ⟨0, rfl, by simp, by simp⟩
  | cons module modules ih =>
    rw [fetchModules] at h
    split_ifs at h with htype
    · cases huri : module.uri with
      | none => simp [huri] at h
      | some uri =>
        simp only [huri, hamConnectionSend, if_neg hfd] at h
        let next : HAMConnection :=
          { connection with handlers := connection.handlers ++ [⟨some responder, closure⟩] }
        have hnext : next.fd ≠ -1 := hfd
        obtain ⟨sent, hafter, hhandlers, rfl⟩ := ih hnext h
        refine ⟨sent + 1, hafter, ?_, ?_⟩
        · rw [hhandlers, List.replicate_succ]
          simp [next]
        · simp only [Nat.cast_add, Nat.cast_one, FetchInfo.mk.injEq, and_true]
          omega
    · exact ih hfd h

theorem FetchKind.fetch_eq {kind : FetchKind} {connection after : HAMConnection}
    {table : HAMHashTable HAMModule} {handler : Option ℕ} {uiData closure : ℕ} {info : FetchInfo}
    (hfd : connection.fd ≠ -1)
    (h : kind.fetch connection table handler uiData closure = some (after, info)) :
    ∃ sent : ℕ, after.fd = connection.fd ∧
      after.handlers = connection.handlers ++ List.replicate sent ⟨some kind.responder, closure⟩ ∧
      info = { requests := sent, handler, uiData } := by
  cases kind <;>
  · obtain ⟨sent, hafter, hhandlers, hinfo⟩ := fetchModules_eq hfd h
    exact ⟨sent, hafter, hhandlers, by simpa using hinfo⟩

/-- A reply takes the first handler from the queue. -/
theorem deliver_passive (connection : HAMConnection) (reply : HAMReply) :
    (deliver (fun _ _ _ => []) { connection with reply }).1.fd = connection.fd ∧
      (deliver (fun _ _ _ => []) { connection with reply }).1.handlers =
        connection.handlers.tail := by
  unfold deliver
  cases hqueue : connection.handlers with
  | nil => simp
  | cons tuple handlers => cases hhandler : tuple.handler <;> simp [hhandler, applyCalls]

theorem responseOf_responder (answer : Answer) (kind : FetchKind) :
    responseOf answer (some kind.responder) =
      some (fetchResponse (kind.merge answer.start₁ answer.start₂) kind.finish) := by
  cases kind <;> rfl

theorem responseOf_other {handler : Option Handler} (h : isResponder handler = false)
    (answer : Answer) : responseOf answer handler = none := by
  simp only [isResponder, callinfoResponder, dxclusterResponder, Bool.or_eq_false_iff] at h
  unfold responseOf
  split <;> simp_all

theorem isResponder_responder (kind : FetchKind) : isResponder (some kind.responder) = true := by
  cases kind <;> rfl

theorem mergeAnswers_append (kind : FetchKind) (data : Option Bytes) (answers : List Answer)
    (answer : Answer) : mergeAnswers kind data (answers ++ [answer]) =
      (mergeAnswers kind data answers).bind
        (collect (kind.merge answer.start₁ answer.start₂) · answer.reply) := by
  induction answers generalizing data with
  | nil => simp [mergeAnswers]
  | cons first answers ih => simp [mergeAnswers, ih, Option.bind_assoc]

/-- There are data when a reply had status 200. -/
theorem mergeAnswers_isSome {kind : FetchKind} {answers : List Answer} {data last : Option Bytes}
    (h : mergeAnswers kind data answers = some last) :
    last.isSome ↔ data.isSome ∨ ∃ answer ∈ answers, answer.reply.status = 200 := by
  induction answers generalizing data with
  | nil =>
    cases h
    simp
  | cons answer answers ih =>
    obtain ⟨between, hcollect, hrest⟩ := Option.bind_eq_some_iff.mp h
    have hbetween : between.isSome ↔ data.isSome ∨ answer.reply.status = 200 := by
      unfold collect at hcollect
      split_ifs at hcollect with hstatus
      · cases data with
        | none =>
          cases hcollect
          simp [hstatus]
        | some text =>
          obtain ⟨merged, -, rfl⟩ := Option.map_eq_some_iff.mp hcollect
          simp [hstatus]
      · cases hcollect
        simp [hstatus]
    rw [ih hrest, hbetween]
    simp [or_assoc]

/-! ## What is known of a fetch -/

/-- The calls behind the last reply. -/
def finalCalls (fetch : Fetch) (data : Option Bytes) : List FetchEvent :=
  (fetch.kind.finish { handler := fetch.handler, uiData := fetch.uiData } data).filter
    FetchEvent.isCall

theorem finish_eq (kind : FetchKind) (info : FetchInfo) (data : Option Bytes) :
    kind.finish info data =
      kind.finish { handler := info.handler, uiData := info.uiData } data := by
  cases kind <;> rfl

/-- A fetch is waiting for replies, sent no request, got all replies, or left an array. -/
inductive Follows (client : Client) (closure : ℕ) (fetch : Fetch) : Prop where
  | waiting {data} (alive : client.crashed ≠ some closure)
      (merged : mergeAnswers fetch.kind none fetch.answers = some data)
      (pos : 0 < awaited client closure)
      (info : client.infos closure = some
        { requests := awaited client closure, data, handler := fetch.handler,
          uiData := fetch.uiData })
      (calls : callsOf client closure = [])
  | silent (alive : client.crashed ≠ some closure) (answers : fetch.answers = [])
      (none_awaited : awaited client closure = 0) (calls : callsOf client closure = [])
  | answered {data} (alive : client.crashed ≠ some closure)
      (merged : mergeAnswers fetch.kind none fetch.answers = some data)
      (none_awaited : awaited client closure = 0)
      (calls : callsOf client closure = finalCalls fetch data)
  | crashed (here : client.crashed = some closure)
      (merged : mergeAnswers fetch.kind none fetch.answers = none)

variable {client : Client} {closure handler : ℕ} {fetch : Fetch}

theorem finalCalls_iff {data : Option Bytes} (hhandler : fetch.handler = some handler) :
    (∃ value error, finalCalls fetch data = [.call handler value error fetch.uiData] ∧
      (value ≠ none ∨ error ≠ 0)) ↔ data.isSome := by
  obtain ⟨kind, handler', uiData, answers⟩ := fetch
  obtain rfl : handler' = some handler := hhandler
  cases kind <;> cases data <;>
    simp [finalCalls, FetchKind.finish, finishCallinfo, finishDxcluster, callHandler, List.filter,
      FetchEvent.isCall]

theorem Follows.completes_iff (h : Follows client closure fetch)
    (hhandler : fetch.handler = some handler) :
    CompletesOnce client closure handler fetch.uiData ↔ Answered client closure fetch := by
  unfold CompletesOnce Answered
  cases h with
  | waiting alive merged pos info calls => simp [alive, merged, pos.ne', calls]
  | silent alive answers none_awaited calls =>
    simp [answers, none_awaited, calls]
  | answered alive merged none_awaited calls =>
    have hstatus := mergeAnswers_isSome merged
    rw [if_pos none_awaited, calls, finalCalls_iff hhandler, merged, hstatus]
    simp [alive, none_awaited]
  | crashed here merged => simp [here, merged]

/-- What is known of a fetch concerns its own closure. -/
theorem Follows.congr {after : Client} (h : Follows client closure fetch)
    (hcrashed : after.crashed = some closure ↔ client.crashed = some closure)
    (hawaited : awaited after closure = awaited client closure)
    (hinfo : after.infos closure = client.infos closure)
    (hcalls : callsOf after closure = callsOf client closure) : Follows after closure fetch := by
  cases h with
  | waiting alive merged pos info calls =>
    exact .waiting (hcrashed.not.mpr alive) merged (hawaited ▸ pos) (by rw [hinfo, hawaited, info])
      (hcalls.trans calls)
  | silent alive answers none_awaited calls =>
    exact .silent (hcrashed.not.mpr alive) answers (hawaited.trans none_awaited)
      (hcalls.trans calls)
  | answered alive merged none_awaited calls =>
    exact .answered (hcrashed.not.mpr alive) merged (hawaited.trans none_awaited)
      (hcalls.trans calls)
  | crashed here merged => exact .crashed (hcrashed.mpr here) merged

/-- The invariant of the runs: a queued response handler belongs to a fetch of its kind, and the log
names no others. -/
structure Client.Good (client : Client) : Prop where
  fd : client.connection.fd ≠ -1
  queue : ∀ tuple ∈ client.connection.handlers, isResponder tuple.handler = true →
    ∃ fetch, client.fetches[tuple.uiData]? = some fetch ∧ tuple.handler = some fetch.kind.responder
  log : ∀ entry ∈ client.log, entry.1 < client.fetches.length
  follows : ∀ closure fetch, client.fetches[closure]? = some fetch → Follows client closure fetch

theorem good_start {fd : ℤ} (hfd : fd ≠ -1) : (fetchSystem fd).start.Good :=
  ⟨hfd, by simp [fetchSystem], by simp [fetchSystem], by simp [fetchSystem]⟩

/-- No request of a fetch that was not made yet is queued, and its handler was not called. -/
theorem Client.Good.untouched (h : client.Good) :
    awaited client client.fetches.length = 0 ∧ callsOf client client.fetches.length = [] := by
  constructor
  · refine List.countP_eq_zero.mpr fun tuple hmem hcounted => ?_
    simp only [Bool.and_eq_true, decide_eq_true_eq] at hcounted
    obtain ⟨fetch, hfetch, -⟩ := h.queue tuple hmem hcounted.1
    rw [hcounted.2] at hfetch
    simp at hfetch
  · have hnone : client.log.filter (fun entry => entry.1 = client.fetches.length) = [] := by
      refine List.filter_eq_nil_iff.mpr fun entry hmem => ?_
      have hlt := h.log entry hmem
      simp only [decide_eq_true_eq]
      omega
    simp [callsOf, hnone]

theorem good_send (h : client.Good) {request : HAMRequest} {handler : Option Handler}
    {uiData : ℕ} (hhandler : isResponder handler = false) :
    Client.Good { client with
      connection := (hamConnectionSend client.connection request handler uiData).1 } := by
  simp only [hamConnectionSend, if_neg h.fd]
  refine ⟨h.fd, ?_, h.log, fun closure fetch hfetch => ?_⟩
  · intro tuple hmem hresponder
    rcases List.mem_append.mp hmem with hold | hnew
    · exact h.queue tuple hold hresponder
    · rw [List.mem_singleton.mp hnew] at hresponder
      simp [hhandler] at hresponder
  · refine (h.follows closure fetch hfetch).congr Iff.rfl ?_ rfl rfl
    simp [awaited, hhandler]

/-- A new fetch waits for the replies to the requests it sent, if any. -/
theorem good_fetch (h : client.Good) (hrunning : client.crashed = none) {kind : FetchKind}
    {table : HAMHashTable HAMModule} {caller : Option ℕ} {uiData : ℕ}
    {connection : HAMConnection} {info : FetchInfo}
    (hfetch : kind.fetch client.connection table caller uiData client.fetches.length =
      some (connection, info)) :
    Client.Good { client with
      connection
      infos := Function.update client.infos client.fetches.length (some info)
      fetches := client.fetches ++ [⟨kind, caller, uiData, []⟩] } := by
  obtain ⟨sent, hfd, hhandlers, rfl⟩ := FetchKind.fetch_eq h.fd hfetch
  obtain ⟨hawaited, hcalls⟩ := h.untouched
  set after : Client := { client with
    connection
    infos := Function.update client.infos client.fetches.length
      (some { requests := sent, handler := caller, uiData })
    fetches := client.fetches ++ [⟨kind, caller, uiData, []⟩] } with hafter
  have hcount (closure : ℕ) : awaited after closure = awaited client closure +
      if client.fetches.length = closure then sent else 0 := by
    simp only [awaited, hafter, hhandlers, List.countP_append, List.countP_replicate]
    simp [isResponder_responder]
  refine ⟨hfd ▸ h.fd, ?_, ?_, ?_⟩
  · intro tuple hmem hresponder
    simp only [hafter, hhandlers, List.mem_append, List.mem_replicate] at hmem
    rcases hmem with hold | ⟨-, rfl⟩
    · obtain ⟨fetch, hlookup, hkind⟩ := h.queue tuple hold hresponder
      refine ⟨fetch, ?_, hkind⟩
      rw [hafter, List.getElem?_append_left (List.getElem?_eq_some_iff.mp hlookup).1, hlookup]
    · exact ⟨⟨kind, caller, uiData, []⟩, by simp [hafter], rfl⟩
  · intro entry hmem
    have hlt := h.log entry hmem
    simp only [hafter, List.length_append, List.length_singleton]
    omega
  · intro closure fetch hlookup
    by_cases hnew : closure = client.fetches.length
    · subst hnew
      obtain rfl : fetch = ⟨kind, caller, uiData, []⟩ := by simpa [hafter] using hlookup.symm
      have hown : awaited after client.fetches.length = sent := by simp [hcount, hawaited]
      have halive : after.crashed ≠ some client.fetches.length := by simp [hafter, hrunning]
      rcases Nat.eq_zero_or_pos sent with hzero | hpos
      · exact .silent halive rfl (hown.trans hzero) hcalls
      · refine .waiting halive rfl (hown.symm ▸ hpos) ?_ hcalls
        rw [hown]
        simp [hafter]
    · have hlt : closure < client.fetches.length := by
        have hbound := (List.getElem?_eq_some_iff.mp hlookup).1
        simp only [hafter, List.length_append, List.length_singleton] at hbound
        omega
      have hold : client.fetches[closure]? = some fetch := by
        rwa [hafter, List.getElem?_append_left hlt] at hlookup
      refine (h.follows closure fetch hold).congr Iff.rfl ?_ ?_ rfl
      · simp [hcount, Ne.symm hnew]
      · simp [hafter, hnew]

/-- A reply that is not for a fetch takes its handler from the queue. -/
theorem good_other (h : client.Good) {connection : HAMConnection}
    (hfd : connection.fd = client.connection.fd)
    (hhandlers : connection.handlers = client.connection.handlers.tail)
    (hhead : ∀ tuple ∈ client.connection.handlers.head?, isResponder tuple.handler = false) :
    Client.Good { client with connection } := by
  refine ⟨hfd ▸ h.fd, ?_, h.log, fun closure fetch hlookup => ?_⟩
  · intro tuple hmem hresponder
    exact h.queue tuple (List.mem_of_mem_tail (hhandlers ▸ hmem)) hresponder
  · refine (h.follows closure fetch hlookup).congr Iff.rfl ?_ rfl rfl
    simp only [awaited, hhandlers]
    cases hqueue : client.connection.handlers with
    | nil => rfl
    | cons tuple handlers =>
      have hother := hhead tuple (by simp [hqueue])
      simp [hother]

/-- The fetch with one more answer. -/
def Fetch.answer (fetch : Fetch) (answer : Answer) : Fetch :=
  { fetch with answers := fetch.answers ++ [answer] }

theorem callsOf_append {after : Client} {events : List FetchEvent}
    (hlog : after.log = client.log ++ events.map (closure, ·)) (other : ℕ) :
    callsOf after other =
      callsOf client other ++ if closure = other then events.filter FetchEvent.isCall else [] := by
  have hown : (events.map (closure, ·)).filter (fun entry => entry.1 = other) =
      if closure = other then events.map (closure, ·) else [] := by
    split_ifs with heq
    · exact List.filter_eq_self.mpr (by simp [heq])
    · exact List.filter_eq_nil_iff.mpr (by simp [heq])
  simp only [callsOf, hlog, List.filter_append, hown]
  split_ifs <;> simp [Function.comp_def]

/-- A reply to the first queued request of a fetch concerns no other fetch. -/
theorem good_answer (h : client.Good) {tuple : HandlerTuple} {handlers : List HandlerTuple}
    (hqueue : client.connection.handlers = tuple :: handlers)
    (hlookup : client.fetches[tuple.uiData]? = some fetch) (answer : Answer)
    (events : List FetchEvent) {after : Client} (hrunning : client.crashed = none)
    (hfd : after.connection.fd = client.connection.fd)
    (hhandlers : after.connection.handlers = handlers)
    (hfetches : after.fetches = client.fetches.modify tuple.uiData (·.answer answer))
    (hlog : after.log = client.log ++ events.map (tuple.uiData, ·))
    (hinfos : ∀ other ≠ tuple.uiData, after.infos other = client.infos other)
    (hcrashed : ∀ other ≠ tuple.uiData, after.crashed ≠ some other)
    (hfollows : Follows after tuple.uiData (fetch.answer answer)) : after.Good := by
  have hother (other : ℕ) : after.fetches[other]? =
      (client.fetches[other]?).map fun fetch =>
        if tuple.uiData = other then fetch.answer answer else fetch := by
    rw [hfetches, List.getElem?_modify]
    cases client.fetches[other]? <;> rfl
  refine ⟨hfd ▸ h.fd, ?_, ?_, ?_⟩
  · intro queued hmem hresponder
    obtain ⟨found, hfound, hkind⟩ := h.queue queued (by simp [hqueue, hhandlers ▸ hmem]) hresponder
    refine ⟨_, by rw [hother, hfound, Option.map_some], ?_⟩
    split_ifs <;> exact hkind
  · intro entry hmem
    rw [hfetches, List.length_modify]
    rw [hlog] at hmem
    rcases List.mem_append.mp hmem with hold | hnew
    · exact h.log entry hold
    · obtain ⟨event, -, rfl⟩ := List.mem_map.mp hnew
      exact (List.getElem?_eq_some_iff.mp hlookup).1
  · intro closure found hfound
    by_cases hown : tuple.uiData = closure
    · subst hown
      rw [hother, hlookup, Option.map_some, if_pos rfl, Option.some.injEq] at hfound
      exact hfound ▸ hfollows
    · have hold : client.fetches[closure]? = some found := by
        simpa [hother, hown] using hfound
      refine (h.follows closure found hold).congr ?_ ?_ (hinfos closure (Ne.symm hown)) ?_
      · simp [hrunning, hcrashed closure (Ne.symm hown)]
      · simp [awaited, hqueue, hhandlers, hown]
      · rw [callsOf_append hlog, if_neg hown, List.append_nil]

theorem Client.Good.receive (h : client.Good) (hrunning : client.crashed = none)
    (answer : Answer) : (client.receive answer).Good := by
  obtain ⟨hfd, hhandlers⟩ := deliver_passive client.connection answer.reply
  unfold Client.receive
  generalize (deliver (fun _ _ _ => []) { client.connection with reply := answer.reply }).1 =
    connection at hfd hhandlers ⊢
  cases hqueue : client.connection.handlers with
  | nil => exact good_other h hfd hhandlers (by simp [hqueue])
  | cons tuple handlers =>
    cases hresponder : isResponder tuple.handler with
    | false =>
      simp only [responseOf_other hresponder]
      exact good_other h hfd hhandlers (by simp [hqueue, hresponder])
    | true =>
      obtain ⟨fetch, hlookup, hkind⟩ := h.queue tuple (by simp [hqueue]) hresponder
      rw [hqueue, List.tail_cons] at hhandlers
      have hcount : awaited client tuple.uiData =
          handlers.countP (fun queued => isResponder queued.handler &&
            decide (queued.uiData = tuple.uiData)) + 1 := by
        simp [awaited, hqueue, hresponder]
      simp only [hkind, responseOf_responder]
      cases h.follows tuple.uiData fetch hlookup with
      | silent alive answers none_awaited calls => omega
      | answered alive merged none_awaited calls => omega
      | crashed here merged => simp [hrunning] at here
      | waiting alive merged pos info calls =>
        rename_i data
        have happend := mergeAnswers_append fetch.kind none fetch.answers answer
        rw [merged, Option.bind_some] at happend
        simp only [info, Option.bind_some, fetchResponse]
        cases hcollect : collect (fetch.kind.merge answer.start₁ answer.start₂) data
            answer.reply with
        | none =>
          simp only [Option.map_none]
          refine good_answer h hqueue hlookup answer [] hrunning hfd hhandlers rfl (by simp)
            (fun _ _ => rfl) (by simp [eq_comm]) (.crashed rfl ?_)
          rw [Fetch.answer, happend, hcollect]
        | some collected =>
          simp only [Option.map_some]
          rw [hcollect] at happend
          split_ifs with hlast
          · -- the last reply: the closure is freed
            refine good_answer h hqueue hlookup answer _ hrunning hfd hhandlers rfl rfl
              (fun other hne => by simp [hne]) (by simp [hrunning])
              (.answered (by simp [hrunning]) happend ?_ ?_)
            · simp only [awaited, hhandlers]
              omega
            · rw [callsOf_append rfl, calls, if_pos rfl, List.nil_append, finish_eq]
              rfl
          · refine good_answer h hqueue hlookup answer [] hrunning hfd hhandlers rfl (by simp)
              (fun other hne => by simp [hne]) (by simp [hrunning])
              (.waiting (by simp [hrunning]) happend ?_ ?_ ?_)
            · simp only [awaited, hhandlers]
              omega
            · simp only [awaited, hhandlers] at hcount ⊢
              rw [Function.update_self, hcount]
              simp [Fetch.answer]
            · simpa [callsOf] using calls

theorem good_of_run {fd : ℤ} (hfd : fd ≠ -1) {events : List ClientEvent}
    (h : System.Run (fetchSystem fd) (fun _ _ => true) events client) : client.Good := by
  refine System.Run.invariant (I := fun _ client => client.Good) (good_start hfd) ?_ h
  intro past client event after ih henabled _ hstep
  simp only [fetchSystem, Bool.and_eq_true, Option.isNone_iff_eq_none] at henabled
  cases event with
  | fetch kind table handler uiData =>
    obtain ⟨⟨connection, info⟩, hfetch, rfl⟩ := Option.map_eq_some_iff.mp hstep
    exact good_fetch ih henabled.1 hfetch
  | send request handler uiData =>
    cases hstep
    exact good_send ih (by simpa using henabled.2)
  | reply answer =>
    cases hstep
    exact ih.receive henabled.1 answer

/-- In every run of a connected client, whatever is sent and answered beside it, a fetch calls its
handler as it should exactly if one of its requests was answered with status 200, when all are
answered, and the merges stayed inside their arrays. -/
theorem completesOnce_iff {fd : ℤ} (hfd : fd ≠ -1) (events : List ClientEvent) (client : Client)
    (h : System.Run (fetchSystem fd) (fun _ _ => true) events client) (closure handler : ℕ)
    (fetch : Fetch) (hfetch : client.fetches[closure]? = some fetch)
    (hhandler : fetch.handler = some handler) :
    CompletesOnce client closure handler fetch.uiData ↔ Answered client closure fetch :=
  ((good_of_run hfd h).follows closure fetch hfetch).completes_iff hhandler

/-- The table of a server with a DX cluster. -/
def clusterTable : HAMHashTable HAMModule :=
  hamHashTableAdd {} (bytes "/dxcluster") (-1)
    { uri := some (bytes "/dxcluster"), type := dxclusterType }

/-- A fetch for the handler 5, and a reply with the status. -/
def clusterEvents (status : ℕ) : List ClientEvent :=
  [.fetch .dxcluster clusterTable (some 5) 9, .reply ⟨{ status }, [], []⟩]

theorem completesOnce_iff_cluster : ∃ client fetch,
    System.Run (fetchSystem 4) (fun _ _ => true) (clusterEvents 200) client ∧
      client.fetches[0]? = some fetch ∧
      (CompletesOnce client 0 5 fetch.uiData ↔ Answered client 0 fetch) := by
  have hexec : (System.exec (fetchSystem 4) (fun _ _ => true) (fetchSystem 4).start
      (clusterEvents 200)).any
      (fun client => client.fetches[0]?.any fun fetch => decide (fetch.handler = some 5)) =
        true := by decide +kernel
  obtain ⟨client, hrun, hclient⟩ := System.exists_run_of_exec hexec
  obtain ⟨fetch, hfetch, hhandler⟩ := (Option.any_eq_true _ _).mp hclient
  exact ⟨client, fetch, hrun, hfetch,
    completesOnce_iff (by decide) _ client hrun 0 5 fetch hfetch (of_decide_eq_true hhandler)⟩

/-- When the only request fails, the handler is called with NULL and without an error. -/
theorem not_completesOnce_failed : ¬ ∀ (fd : ℤ) (events : List ClientEvent) (client : Client),
    fd ≠ -1 → System.Run (fetchSystem fd) (fun _ _ => true) events client →
      ∀ (closure handler : ℕ) (fetch : Fetch), client.fetches[closure]? = some fetch →
        fetch.handler = some handler → CompletesOnce client closure handler fetch.uiData := by
  intro h
  have hexec : (System.exec (fetchSystem 4) (fun _ _ => true) (fetchSystem 4).start
      (clusterEvents 400)).any (fun client =>
        (client.fetches[0]?.any fun fetch => decide (fetch.handler = some 5)) &&
          decide (awaited client 0 = 0 ∧ callsOf client 0 = [.call 5 none 0 9])) = true := by
    decide +kernel
  obtain ⟨client, hrun, hclient⟩ := System.exists_run_of_exec hexec
  rw [Bool.and_eq_true, decide_eq_true_eq] at hclient
  obtain ⟨hany, hawaited, hcalls⟩ := hclient
  obtain ⟨fetch, hfetch, hhandler⟩ := (Option.any_eq_true _ _).mp hany
  have hcompletes := (h 4 _ client (by decide) hrun 0 5 fetch hfetch
    (of_decide_eq_true hhandler)).2
  rw [if_pos hawaited, hcalls] at hcompletes
  obtain ⟨data, error, heq, hsome⟩ := hcompletes
  simp only [List.cons.injEq, FetchEvent.call.injEq, and_true, true_and] at heq
  obtain ⟨rfl, rfl, -⟩ := heq
  simp at hsome

end Hamlog.Library
