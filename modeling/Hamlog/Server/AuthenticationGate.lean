import Hamlog.Foundation.Runs
import Hamlog.Server.Responders.LogBookReads

/-! # The authentication gate

The server with all its sessions: `ModuleManager` dispatches the requests, the
login module sets the authentication of sessions, and all other modules work on
the database and on a state of their own. Every step keeps the invariant that
an authenticated session has proved the password of a user in its last complete
login, and that its identifier is the one of that user.
-/
namespace Hamlog.Server
open Foundation Wire StorageBackend

/-- The state of the server: the accounts of its sessions, the query object of the login module,
the database, and the state of the other modules. -/
structure ServerState (ι δ ω : Type*) where
  accounts : ι → Account := fun _ => {}
  getUser : Select := Login.getUserQuery
  db : δ
  others : ω
  crashed : Bool := false

/-- The modules besides the login. They know the number and the account of a session. -/
structure OtherModules (ι δ ω : Type*) where
  modules : List (Responder (ι × Account) (δ × ω))
  not_login : ∀ responder ∈ modules, responder.uri ≠ bytes "/login"

namespace Gate
variable {ι δ ω : Type*} [DecidableEq ι] (backend : SQLite3 δ) (cast : LexicalCast)
  (md5 : Bytes → Bytes) (others : OtherModules ι δ ω)

/-- The login module among the modules of the server. -/
def loginResponder : Responder ι (ServerState ι δ ω) where
  uri := bytes "/login"
  name := bytes "Login module"
  needAuthentication := false
  handleRequest sid server request reply :=
    match Login.handleRequest backend cast md5 (server.accounts sid) server.getUser server.db
        request reply with
    | none => (true, reply, { server with crashed := true })
    | some result => (true, result.reply,
        { server with
          accounts := Function.update server.accounts sid result.account
          getUser := result.getUser
          db := result.db })

/-- Another module among the modules of the server. -/
def otherResponder (responder : Responder (ι × Account) (δ × ω)) :
    Responder ι (ServerState ι δ ω) :=
  { responder with
    handleRequest sid server request reply :=
      let handled := responder.handleRequest (sid, server.accounts sid) (server.db, server.others)
        request reply
      (handled.1, handled.2.1, { server with db := handled.2.2.1, others := handled.2.2.2 }) }

def manager : ModuleManager ι (ServerState ι δ ω) where
  modules := loginResponder backend cast md5 :: others.modules.map otherResponder
  isAuthenticated sid server := (server.accounts sid).authenticated

/-- A request of a session, or anything that changes the database and the state of the other
modules outside of requests, such as the end of an exchange with another server. -/
inductive Event (ι δ ω : Type*) where
  | request (sid : ι) (request : Request)
  | change (db : δ) (others : ω)

/-- A server that crashed takes no further step. -/
def system (db : δ) (state : ω) : System (ServerState ι δ ω) (Event ι δ ω) where
  start := { db, others := state }
  enabled _ _ := true
  step
    | server, .request sid request =>
      let server := ((manager backend cast md5 others).answer sid server request).2
      if server.crashed then none else some server
    | server, .change db state => some { server with db, others := state }

/-- The runs of the server without a crash, over all requests of all sessions. -/
abbrev Run (db : δ) (state : ω) (past : List (Event ι δ ω)) (server : ServerState ι δ ω) : Prop :=
  System.Run (system backend cast md5 others db state) (fun _ _ => true) past server

/-- The fields of a `/login` request that carries all of them. -/
def loginFields (request : Request) : Option StringMap :=
  if cutUri request.uri = bytes "/login" then Login.credentials request else none

/-- The last complete login of the session proved the password of a user, whose identifier is
`id`. -/
def LetIn (db : δ) (state : ω) (past : List (Event ι δ ω)) (sid : ι) (id : ℕ) : Prop :=
  ∃ before login after fields server row,
    past = before ++ .request sid login :: after ∧ loginFields login = some fields ∧
    (∀ request, .request sid request ∈ after → loginFields request = none) ∧
    Run backend cast md5 others db state before server ∧
    row ∈ backend.tableRows server.db Login.usersTable ∧ Login.Authorizes cast md5 fields row id

variable {backend cast md5 others} {db : δ} {state : ω}

/-- Later events that are no complete login of the session change nothing. -/
theorem LetIn.append {past : List (Event ι δ ω)} {sid : ι} {id : ℕ}
    (h : LetIn backend cast md5 others db state past sid id) {event : Event ι δ ω}
    (hevent : ∀ request, event = .request sid request → loginFields request = none) :
    LetIn backend cast md5 others db state (past ++ [event]) sid id := by
  obtain ⟨before, login, after, fields, server, row, rfl, hfields, hafter, hrest⟩ := h
  refine ⟨before, login, after ++ [event], fields, server, row, by simp, hfields, ?_, hrest⟩
  intro request hrequest
  rcases List.mem_append.mp hrequest with hrequest | hrequest
  · exact hafter request hrequest
  · exact hevent request (List.mem_singleton.mp hrequest).symm

variable (backend cast md5 others db state) in
/-- What holds behind every run. -/
structure Guarded (past : List (Event ι δ ω)) (server : ServerState ι δ ω) : Prop where
  run : Run backend cast md5 others db state past server
  query : Login.QueryOk server.getUser
  accounts : ∀ sid, (server.accounts sid).authenticated = true →
    LetIn backend cast md5 others db state past sid (server.accounts sid).id

theorem called_login {sid : ι} {server : ServerState ι δ ω} {request : Request}
    (huri : cutUri request.uri = bytes "/login") :
    (manager backend cast md5 others).called sid server request = some
        (loginResponder backend cast md5) := by
  have hmodules : bytes "/login" ≠ bytes "/modules" := by decide
  simp only [ModuleManager.called, huri, if_neg hmodules]
  rfl

/-- A request with another URI goes to no module or to one of the others. -/
theorem called_other {sid : ι} {server : ServerState ι δ ω} {request : Request}
    (huri : cutUri request.uri ≠ bytes "/login") {responder : Responder ι (ServerState ι δ ω)}
    (h : (manager backend cast md5 others).called sid server request = some responder) :
    ∃ other ∈ others.modules, otherResponder other = responder := by
  obtain ⟨hmem, huri', -⟩ := ModuleManager.called_mem h
  rcases List.mem_cons.mp hmem with rfl | hmem
  · exact absurd huri'.symm huri
  · exact List.mem_map.mp hmem

theorem answer_login {sid : ι} {server : ServerState ι δ ω} {request : Request}
    (huri : cutUri request.uri = bytes "/login") :
    ((manager backend cast md5 others).answer sid server request).2 =
      ((loginResponder backend cast md5).handleRequest sid server request {}).2.2 := by
  rw [ModuleManager.answer_state, called_login huri]

variable (backend cast md5 others) in
/-- A request with another URI leaves the accounts and the login module as they are. -/
theorem answer_other (sid : ι) (server : ServerState ι δ ω) {request : Request}
    (huri : cutUri request.uri ≠ bytes "/login") :
    let next := ((manager backend cast md5 others).answer sid server request).2
    next.accounts = server.accounts ∧ next.getUser = server.getUser := by
  dsimp only
  rw [ModuleManager.answer_state]
  cases hcalled : (manager backend cast md5 others).called sid server request with
  | none => exact ⟨rfl, rfl⟩
  | some responder =>
    obtain ⟨other, -, rfl⟩ := called_other huri hcalled
    exact ⟨rfl, rfl⟩

theorem loginResponder_result {sid : ι} {server : ServerState ι δ ω} {request : Request}
    {reply : Reply}
    (h : ((loginResponder backend cast md5).handleRequest sid server request reply).2.2.crashed =
      false) :
    ∃ result, Login.handleRequest backend cast md5 (server.accounts sid) server.getUser server.db
        request reply = some result ∧
      ((loginResponder backend cast md5).handleRequest sid server request reply).2.2 =
        { server with
          accounts := Function.update server.accounts sid result.account
          getUser := result.getUser
          db := result.db } := by
  unfold loginResponder at h ⊢
  cases hresult : Login.handleRequest backend cast md5 (server.accounts sid) server.getUser
      server.db request reply with
  | none => simp [hresult] at h
  | some result => exact ⟨result, rfl, by simp only [hresult]⟩

/-- A request with another URI, and a change from outside, keep the guarantees. -/
theorem Guarded.keep {past : List (Event ι δ ω)} {server next : ServerState ι δ ω}
    (h : Guarded backend cast md5 others db state past server) {event : Event ι δ ω}
    (hevent : ∀ sid request, event = .request sid request → loginFields request = none)
    (haccounts : next.accounts = server.accounts) (hquery : next.getUser = server.getUser)
    (hrun : Run backend cast md5 others db state (past ++ [event]) next) :
    Guarded backend cast md5 others db state (past ++ [event]) next := by
  refine ⟨hrun, hquery ▸ h.query, fun sid hauth => ?_⟩
  rw [haccounts] at hauth ⊢
  exact (h.accounts sid hauth).append (hevent sid)

theorem Guarded.login {tables : List Table} (hlaw : backend.Lawful tables)
    (ht : Login.usersTable ∈ tables) {past : List (Event ι δ ω)} {server : ServerState ι δ ω}
    (h : Guarded backend cast md5 others db state past server) {sid : ι} {request : Request}
    (huri : cutUri request.uri = bytes "/login") {result : Login.Result δ}
    (hresult : Login.handleRequest backend cast md5 (server.accounts sid) server.getUser server.db
      request {} = some result)
    (hrun : Run backend cast md5 others db state (past ++ [.request sid request])
      { server with
        accounts := Function.update server.accounts sid result.account
        getUser := result.getUser
        db := result.db }) :
    Guarded backend cast md5 others db state (past ++ [.request sid request])
      { server with
        accounts := Function.update server.accounts sid result.account
        getUser := result.getUser
        db := result.db } := by
  obtain ⟨hquery, hincomplete, hcomplete⟩ := Login.handleRequest_result hlaw ht h.query hresult
  have hfields : loginFields request = Login.credentials request := if_pos huri
  refine ⟨hrun, hquery, fun other hauth => ?_⟩
  dsimp only at hauth ⊢
  by_cases hsid : other = sid
  · subst hsid
    rw [Function.update_self] at hauth ⊢
    cases hcred : Login.credentials request with
    | none =>
      rw [hincomplete hcred] at hauth ⊢
      refine (h.accounts other hauth).append fun login hlogin => ?_
      cases hlogin
      exact hfields.trans hcred
    | some fields =>
      obtain ⟨row, hrow, hauthorizes⟩ := hcomplete fields hcred hauth
      exact ⟨past, request, [], fields, server, row, rfl, hfields.trans hcred, by simp, h.run,
        hrow, hauthorizes⟩
  · rw [Function.update_of_ne hsid] at hauth ⊢
    refine (h.accounts other hauth).append fun login hlogin => ?_
    cases hlogin
    exact absurd rfl hsid

theorem guarded_of_run {tables : List Table} (hlaw : backend.Lawful tables)
    (ht : Login.usersTable ∈ tables) {past : List (Event ι δ ω)} {server : ServerState ι δ ω}
    (h : Run backend cast md5 others db state past server) :
    Guarded backend cast md5 others db state past server := by
  refine System.Run.invariant (I := fun past server =>
    Guarded backend cast md5 others db state past server) ?_ ?_ h
  · exact ⟨.start, Login.getUserQuery_ok, fun sid hauth => absurd hauth Bool.false_ne_true⟩
  · intro past server event next hguarded henabled hallowed hstep
    have hrun := hguarded.run.next henabled hallowed hstep
    cases event with
    | change db' state' =>
      cases hstep
      exact hguarded.keep (fun sid request hevent => by cases hevent) rfl rfl hrun
    | request sid request =>
      have hnext : next.crashed = false ∧
          ((manager backend cast md5 others).answer sid server request).2 = next := by
        simp only [system] at hstep
        split_ifs at hstep with hcrash
        cases hstep
        exact ⟨by simpa using hcrash, rfl⟩
      by_cases huri : cutUri request.uri = bytes "/login"
      · rw [answer_login huri] at hnext
        obtain ⟨result, hresult, heq⟩ := loginResponder_result (hnext.2 ▸ hnext.1)
        obtain rfl := heq.symm.trans hnext.2
        exact hguarded.login hlaw ht huri hresult hrun
      · obtain ⟨haccounts, hquery⟩ := answer_other backend cast md5 others sid server huri
        rw [hnext.2] at haccounts hquery
        refine hguarded.keep (fun other login hevent => ?_) haccounts hquery hrun
        cases hevent
        exact if_neg huri

/-- The gate: a responder that needs authentication is called only for its own URI, and only for a
session whose last complete login named an existing user and had the response of that user's
password. The identifier of the session is the one of that user. -/
theorem called_authenticated {tables : List Table} (hlaw : backend.Lawful tables)
    (ht : Login.usersTable ∈ tables) {past : List (Event ι δ ω)} {server : ServerState ι δ ω}
    (h : Run backend cast md5 others db state past server) {sid : ι} {request : Request}
    {responder : Responder ι (ServerState ι δ ω)}
    (hcalled : (manager backend cast md5 others).called sid server request = some responder)
    (hneed : responder.needAuthentication = true) :
    cutUri request.uri = responder.uri ∧
      LetIn backend cast md5 others db state past sid (server.accounts sid).id := by
  obtain ⟨-, huri, hauth⟩ := ModuleManager.called_mem hcalled
  exact ⟨huri.symm, (guarded_of_run hlaw ht h).accounts sid (hauth hneed)⟩

/-! ## A run -/

/-- Digits with an optional sign, where a negative number is taken modulo the size of the type. -/
def sampleRead (text : Bytes) : Option ℕ :=
  let negative := text.head? == some (ch '-')
  let digits := if negative || text.head? == some (ch '+') then text.tail else text
  let value := decimalValue digits
  if digits.isEmpty || !digits.all isDigit || 2 ^ 64 ≤ value then none
  else some (if negative then (2 ^ 64 - value) % 2 ^ 64 else value)

theorem sampleRead_decimal {n : ℕ} (h : n < 2 ^ 64) : sampleRead (decimal n) = some n := by
  have hdigit (c : Byte) (hc : c ∈ decimal n) : isDigit c = true := isDigit_of_mem_decimal hc
  have hhead : (decimal n).head? ≠ some (ch '-') ∧ (decimal n).head? ≠ some (ch '+') := by
    constructor
    all_goals
      intro hhead
      exact absurd (hdigit _ (List.mem_of_mem_head? hhead)) (by decide)
  have hall : (decimal n).all isDigit = true := List.all_eq_true.mpr hdigit
  have hne : (decimal n).isEmpty = false := by simpa using decimal_ne_nil n
  simp [sampleRead, hhead.1, hhead.2, hall, hne, decimalValue_decimal]
  omega

def sampleCast : LexicalCast := ⟨sampleRead, fun _ => sampleRead_decimal⟩

/-- The two hashes of a login with the password `secret`. -/
def sampleMd5 (text : Bytes) : Bytes :=
  if text = bytes "GET:/login" then bytes "315c3fb2f18fd4c6e5a3175e489464ad"
  else bytes "932f3b68feec47bd5d97fca6bfc68d71"

def sampleUsers : SampleEngine.Database where
  rows name :=
    if name = bytes "users" then
      [[some (bytes "7"), some (bytes "hanicka"), some (bytes "secret")]]
    else []
  lastRowid := 7

def sampleAuthorization : Header where
  name := bytes "Authorization"
  value := bytes "Digest username=\"hanicka\"," ++ bytes "realm=\"realm@hamlog\"," ++
    bytes "nonce=\"dcd98b7102dd2f0e8b11d0f600bfb0c093\"," ++ bytes "uri=\"/login\",qop=auth," ++
    bytes "response=\"932f3b68feec47bd5d97fca6bfc68d71\"," ++
    bytes "opaque=\"5ccc069c403ebaf9f0171e9517f40e41\""

def sampleModules : OtherModules ℕ SampleEngine.Database LogBook where
  modules := [LogBook.responder LogBook.sampleBackend ℕ]
  not_login := by
    intro responder h
    obtain rfl := List.mem_singleton.mp h
    decide

/-- Two sessions start, and the first one logs in. -/
def sampleLogins : List (Event ℕ SampleEngine.Database LogBook) :=
  [.request 1 { uri := bytes "/login" }, .request 2 { uri := bytes "/logbook" },
    .request 1 { uri := bytes "/login", headers := [sampleAuthorization] }]

theorem called_authenticated_sampleLogins : ∃ server,
    Run LogBook.sampleBackend sampleCast sampleMd5 sampleModules sampleUsers {}
        sampleLogins server ∧
      LetIn LogBook.sampleBackend sampleCast sampleMd5 sampleModules sampleUsers {}
        sampleLogins 1 7 := by
  have hlogin : (System.exec (system LogBook.sampleBackend sampleCast sampleMd5 sampleModules
      sampleUsers {}) (fun _ _ => true) { db := sampleUsers, others := {} } sampleLogins).any
        (fun server => server.accounts 1 == ⟨true, 7, bytes "hanicka"⟩) = true := by decide +kernel
  obtain ⟨server, hrun, haccount⟩ := System.exists_run_of_exec hlogin
  rw [beq_iff_eq] at haccount
  have hcalled : (manager LogBook.sampleBackend sampleCast sampleMd5 sampleModules).called 1 server
      { uri := bytes "/logbook/call/OK2JRQ" } =
      some (otherResponder (LogBook.responder LogBook.sampleBackend ℕ)) := by
    have hauth : (manager LogBook.sampleBackend sampleCast sampleMd5 sampleModules).isAuthenticated
        1 server = true := congrArg Account.authenticated haccount
    rw [ModuleManager.called, show (manager LogBook.sampleBackend sampleCast sampleMd5
      sampleModules).find (cutUri (bytes "/logbook/call/OK2JRQ")) =
        some (otherResponder (LogBook.responder LogBook.sampleBackend ℕ)) from rfl, Option.filter_some,
      hauth]
    rfl
  have h := called_authenticated LogBook.sampleBackend_lawful (by decide) hrun hcalled rfl
  rw [haccount] at h
  exact ⟨server, hrun, h.2⟩

end Gate
end Hamlog.Server
