import Hamlog.Ui.MainWindow

/-! # Signing on

The server behind the connection of the main window: how it answers the steps,
and what the window knows at the end of every run.
-/
namespace Hamlog.Ui
open Foundation Library Server StorageBackend Wire

/-! ## The steps of the server -/

namespace MainWindow
variable {δ ω : Type*} {backend : SQLite3 δ} {cast : LexicalCast} {md5 : Bytes → Bytes}
  {bystanders : List (Bystander ℕ ω backend)} {server : Server δ ω}

/-- Only a login can crash. -/
theorem answer_crashed (sid : ℕ) {request : Request} (huri : cutUri request.uri ≠ bytes "/login") :
    ((manager backend cast md5 bystanders).answer sid server request).2.crashed =
        server.crashed := by
  rw [ModuleManager.answer_state]
  cases hcalled : (manager backend cast md5 bystanders).called sid server request with
  | none => rfl
  | some responder =>
    obtain ⟨other, -, rfl⟩ := Gate.called_other huri hcalled
    rfl

/-- The account of a session changes by its own complete logins only. -/
theorem answer_account {tables : List Table} (hlaw : backend.Lawful tables)
    (husers : Login.usersTable ∈ tables) (hquery : Login.QueryOk server.getUser) {sid session : ℕ}
    {request : Request} (h : sid = session → Gate.loginFields request = none)
    (hcrashed : ((manager backend cast md5 bystanders).answer sid server
      request).2.crashed = false) :
    ((manager backend cast md5 bystanders).answer sid server request).2.accounts session =
      server.accounts session := by
  by_cases huri : cutUri request.uri = bytes "/login"
  · rw [Gate.answer_login huri] at hcrashed ⊢
    obtain ⟨result, hresult, heq⟩ := Gate.loginResponder_result hcrashed
    rw [heq]
    by_cases hsid : session = sid
    · subst hsid
      have hcred : Login.credentials request = none := (if_pos huri).symm.trans (h rfl)
      exact (Function.update_self ..).trans
        ((Login.handleRequest_result hlaw husers hquery hresult).2.1 hcred)
    · exact Function.update_of_ne hsid _ _
  · exact congrFun (Gate.answer_other backend cast md5 _ sid server huri).1 session

section
variable {tables : List Table} (hlaw : backend.Lawful tables) (husers : Login.usersTable ∈ tables)
  (hlogbook : LogBook.logbookTable ∈ tables)
  (hrowids : AutomaticRowids backend Login.usersTable) {db : δ} {state : ω}
  {past : List (Gate.Event ℕ δ (Register × LogBook × ω))}
  (hkept : Installed.Kept backend cast md5 bystanders db state past server)
include hlaw husers hkept

include hlogbook hrowids in
/-- No request takes a user away. -/
theorem answer_users {sid : ℕ} {request : Request} (hharmless : LogBook.Harmless request)
    (hcrashed : ((manager backend cast md5 bystanders).answer sid server
      request).2.crashed = false) :
    ∀ row ∈ backend.tableRows server.db Login.usersTable, row ∈ backend.tableRows
      ((manager backend cast md5 bystanders).answer sid server request).2.db Login.usersTable := by
  by_cases huri : cutUri request.uri = bytes "/login"
  · rw [Gate.answer_login huri] at hcrashed ⊢
    obtain ⟨result, hresult, heq⟩ := Gate.loginResponder_result hcrashed
    rw [heq]
    dsimp only
    rw [Login.handleRequest_db hlaw husers hkept.guarded.query hresult]
    exact fun _ => id
  · exact (Installed.other_respects hlaw husers hlogbook hrowids hkept sid huri
      hharmless).1.users

/-! ### The steps -/

omit hlaw husers hkept in
theorem harmless_of_uri {request : Request} (h : request.uri ≠ bytes "/logbook/add") :
    LogBook.Harmless request :=
  fun huri => absurd huri h

variable (bystanders) in
omit hkept in
theorem exchange_registering (hmd5 : HexDigest md5) (conn : SignOn md5)
    (hrunning : server.crashed = false) :
    ∃ reply next, exchange (manager backend cast md5 bystanders) conn.session server
        (hamAccountRegister conn.credentials.username conn.credentials.password) =
          some (reply, next) ∧ next.crashed = false ∧
      SignOn.Answers backend conn next .register reply := by
  obtain ⟨hname, hclean⟩ := And.intro conn.credentials.name.control conn.credentials.clean
  obtain ⟨reply, next, hexchange, hdb, hstatus⟩ := exchange_register backend cast md5 _ hname hclean
    conn.session server
  have hzero {text : Bytes} (h : ∀ c ∈ text, isControl c = false) : 0 ∉ text := fun hmem =>
    absurd (h 0 hmem) (by decide)
  have huri : cutUri (asked (hamAccountRegister conn.credentials.username
      conn.credentials.password)).uri ≠ bytes "/login" := by
    rw [asked_eq (sendable_register hname hclean)]
    change cutUri (bytes "/register") ≠ bytes "/login"
    decide
  have hstate := exchange_state hexchange
  refine ⟨reply, next, hexchange, ?_, fun hok => ?_⟩
  · rw [← hstate]
    exact (answer_crashed _ huri).trans hrunning
  · obtain ⟨row, hrow, hvalues⟩ := Register.exists_user hlaw husers server.others.1
      (hzero hname) (hzero (hmd5.loginName (conn.credentials.username ++ bytes ":realm@hamlog:" ++
        conn.credentials.password)).control) (hstatus.mp hok)
    exact ⟨row, hdb ▸ hrow, hvalues⟩

variable (bystanders) in
omit hlaw husers hkept in
theorem exchange_challenge (conn : SignOn md5) (hrunning : server.crashed = false) :
    ∃ reply next, exchange (manager backend cast md5 bystanders) conn.session server
        hamAccountLogin = some (reply, next) ∧ next.crashed = false ∧
      SignOn.Answers backend conn next .login1 reply := by
  obtain ⟨reply, next, hexchange, hsend⟩ := exchange_login backend cast md5 _ conn.session server
    conn.credentials.username conn.credentials.password
  have hresult : Login.handleRequest backend cast md5 (server.accounts conn.session) server.getUser
      server.db (received hamAccountLogin) {} = some ⟨server.accounts conn.session, server.getUser,
        server.db, Login.createAuthorizationRequest {}⟩ := rfl
  have hstate := exchange_state hexchange
  rw [asked_eq sendable_login, answer_login rfl hresult] at hstate
  exact ⟨reply, next, hexchange, hstate ▸ hrunning, hsend⟩

theorem exchange_proof (hmd5 : HexDigest md5) {conn : SignOn md5}
    (hconn : SignOn.Kept backend conn server) (hrunning : server.crashed = false)
    (hdone : (backend.select server.db
      (server.getUser.where_ (bytes "name") conn.credentials.username)).1 = true)
    (hunique : UniqueNames backend server.db) :
    ∃ reply next, exchange (manager backend cast md5 bystanders) conn.session server
        conn.credentials.response = some (reply, next) ∧ next.crashed = false ∧
      SignOn.Answers backend conn next .login2 reply := by
  obtain ⟨reply, next, hexchange, hcrashed, hsigned, hright⟩ := conn.credentials.exchange_response
    hlaw husers hmd5 conn.session hkept.guarded.query hkept.ids
  exact ⟨reply, next, hexchange, hcrashed.trans hrunning, hsigned,
    fun hmem => hright (hconn.truthful.registered hmem) hunique hdone⟩

omit hlaw husers hkept in
theorem sendable_modules : Sendable modulesRequest := sendable_get (by decide) (by simp)

omit hlaw husers hkept in
/-- The server reads no step as a record to add. -/
theorem asked_uri (hmd5 : HexDigest md5) {credentials : Credentials md5}
    {handler : ResponseHandler} (hstep : handler ≠ .widget) {request : HAMRequest}
    (hasks : SignOn.Asks credentials handler request) :
    (asked request).uri ≠ bytes "/logbook/add" := by
  have hadd : [bytes "/modules", bytes "/register", bytes "/login"].all
      (· != bytes "/logbook/add") = true := by decide
  have hread {request : HAMRequest} (hsend : Sendable request)
      (huri : request.uri ∈ [bytes "/modules", bytes "/register", bytes "/login"]) :
      (asked request).uri ≠ bytes "/logbook/add" := by
    have hne : request.uri ≠ bytes "/logbook/add" := by
      simpa using List.all_eq_true.mp hadd _ huri
    rw [asked_eq hsend]
    exact hne
  cases handler with
  | connect =>
    obtain rfl : request = modulesRequest := hasks
    exact hread sendable_modules (by simp [modulesRequest])
  | register =>
    obtain rfl : request = hamAccountRegister credentials.username credentials.password := hasks
    exact hread (sendable_register credentials.name.control credentials.clean)
      (by simp [hamAccountRegister])
  | login1 =>
    obtain rfl : request = hamAccountLogin := hasks
    exact hread sendable_login (by simp [hamAccountLogin])
  | login2 =>
    obtain rfl : request = credentials.response := hasks
    exact hread (sendable_response (credentials.response_clean hmd5))
      (by simp [Credentials.response, loginRequest, hamAccountLogin])
  | widget => exact absurd rfl hstep

omit hlaw husers hkept in
theorem exchange_connect (conn : SignOn md5) (hrunning : server.crashed = false)
    (h : (exchange (manager backend cast md5 bystanders) conn.session server
      modulesRequest).isSome = true) :
    ∃ reply next, exchange (manager backend cast md5 bystanders) conn.session server
        modulesRequest = some (reply, next) ∧ next.crashed = false ∧
      SignOn.Answers backend conn next .connect reply := by
  obtain ⟨⟨reply, next⟩, hexchange⟩ := Option.isSome_iff_exists.mp h
  have huri : cutUri (asked modulesRequest).uri ≠ bytes "/login" := by
    rw [asked_eq sendable_modules]
    change cutUri (bytes "/modules") ≠ bytes "/login"
    decide
  refine ⟨reply, next, hexchange, ?_, trivial⟩
  rw [← exchange_state hexchange]
  exact (answer_crashed _ huri).trans hrunning

/-- Under the guard the server answers what it reads next, and the connection is kept. -/
theorem exchange_next (hmd5 : HexDigest md5) {window : MainWindow md5 (Server δ ω)}
    (hserver : window.server = server) {conn : SignOn md5} (hconn : window.connection = some conn)
    (hkeptConn : SignOn.Kept backend conn server) (hrunning : server.crashed = false)
    (hguard : guard backend cast md5 bystanders window .serve = true) {request : HAMRequest}
    {requests : List HAMRequest} (hrequests : conn.requests = request :: requests)
    {handler : ResponseHandler} (hnext : next conn = some handler)
    (hasks : SignOn.Asks conn.credentials handler request) :
    ∃ reply next, exchange (manager backend cast md5 bystanders) conn.session server request =
        some (reply, next) ∧ next.crashed = false ∧ LogBook.Harmless (asked request) ∧
      (handler = .widget → Gate.loginFields (asked request) = none) ∧
      SignOn.Answers backend conn next handler reply := by
  subst hserver
  simp only [guard, hconn, Option.all_some, hrequests, List.head?_cons, hnext] at hguard
  have hstep (h : handler ≠ .widget) : LogBook.Harmless (asked request) :=
    harmless_of_uri (asked_uri hmd5 h hasks)
  cases handler with
  | connect =>
    obtain rfl : request = modulesRequest := hasks
    obtain ⟨reply, next, hexchange, hcrashed, hanswers⟩ :=
      exchange_connect conn hrunning hguard
    exact ⟨reply, next, hexchange, hcrashed, hstep (by decide), by simp, hanswers⟩
  | register =>
    obtain rfl : request = hamAccountRegister conn.credentials.username
      conn.credentials.password := hasks
    obtain ⟨reply, next, hexchange, hcrashed, hanswers⟩ :=
      exchange_registering bystanders hlaw husers hmd5 conn hrunning
    exact ⟨reply, next, hexchange, hcrashed, hstep (by decide), by simp, hanswers⟩
  | login1 =>
    obtain rfl : request = hamAccountLogin := hasks
    obtain ⟨reply, next, hexchange, hcrashed, hanswers⟩ :=
      exchange_challenge bystanders conn hrunning
    exact ⟨reply, next, hexchange, hcrashed, hstep (by decide), by simp, hanswers⟩
  | login2 =>
    obtain rfl : request = conn.credentials.response := hasks
    rw [Bool.and_eq_true, decide_eq_true_eq] at hguard
    obtain ⟨reply, next, hexchange, hcrashed, hanswers⟩ :=
      exchange_proof hlaw husers hkept hmd5 hkeptConn hrunning hguard.1 hguard.2
    exact ⟨reply, next, hexchange, hcrashed, hstep (by decide), by simp, hanswers⟩
  | widget =>
    rw [Bool.and_eq_true, Bool.and_eq_true, decide_eq_true_eq, Option.isNone_iff_eq_none]
      at hguard
    obtain ⟨⟨hany, hlogin⟩, hharmless⟩ := hguard
    obtain ⟨⟨reply, next⟩, hexchange, hcrashed⟩ := (Option.any_eq_true _ _).mp hany
    exact ⟨reply, next, hexchange, by simpa using hcrashed, hharmless, fun _ => hlogin, trivial⟩

end

/-! ## Runs -/

/-- What holds between two events. -/
structure Kept (backend : SQLite3 δ) (cast : LexicalCast) (md5 : Bytes → Bytes)
    (bystanders : List (Bystander ℕ ω backend)) (db : δ) (state : ω)
    (window : MainWindow md5 (Server δ ω)) : Prop where
  alive : window.crashed = false
  running : window.server.crashed = false
  server : ∃ past, Installed.Kept backend cast md5 bystanders db state past window.server
  connection : ∀ conn ∈ window.connection, SignOn.Kept backend conn window.server

variable {db : δ} {state : ω} {window : MainWindow md5 (Server δ ω)}

theorem Kept.connect (h : Kept backend cast md5 bystanders db state window)
    (credentials : Credentials md5) (register : Bool) (session : ℕ) (failed : Option Bytes) :
    Kept backend cast md5 bystanders db state
      { window with register, connection := some (open_ credentials session failed) } := by
  refine ⟨h.alive, h.running, h.server, fun conn hconn => ?_⟩
  obtain rfl := Option.some.inj hconn
  have huris : SignOn.HasUris {} := fun module hmodule => by
    simp [mem_hamHashTableToList] at hmodule
  let new : SignOn md5 := { credentials, session }
  have htruthful (up : Bool) : SignOn.Truthful backend { new with up } window.server :=
    ⟨by simp [new], by simp [new], by simp [new]⟩
  have hidle (up : Bool) : SignOn.Idle { new with up } := ⟨rfl, rfl, huris⟩
  cases failed with
  | none => exact (hidle true).send (htruthful true) (by simp [new]) rfl (by decide) rfl
  | some reason =>
    refine ((hidle false).tell (.disconnected reason)).kept ?_ ⟨.disconnected reason, by simp
      [SignOn.tell], rfl⟩
    exact (htruthful false).tell (by simp) (by simp) (by simp [SignOn.tell, new])

/-- The client finds the connection closed, or cannot read what came. -/
theorem Kept.disconnected (h : Kept backend cast md5 bystanders db state window) {conn : SignOn md5}
    (hconn : window.connection = some conn) (reason : Bytes) :
    Kept backend cast md5 bystanders db state { window with
      connection := some ({ conn with up := false }.tell (.disconnected reason)) } := by
  refine ⟨h.alive, h.running, h.server, fun other hother => ?_⟩
  obtain rfl := Option.some.inj hother
  have hkept := h.connection conn hconn
  obtain ⟨answered, waiting, hhandlers, hanswers, hasks⟩ := hkept.paired
  have hmem {signal : Told} (hne : signal ≠ .disconnected reason) :
      signal ∈ ({ conn with up := false }.tell (.disconnected reason) : SignOn md5).told ↔
        signal ∈ conn.told := by
    simp [SignOn.tell, hne]
  refine ⟨⟨answered, waiting, hhandlers, hanswers.imp fun handler reply hanswer => ?_, hasks⟩,
    hkept.single, hkept.uris, ⟨fun htold => hkept.truthful.loggedIn ((hmem (by simp)).mp htold),
      fun htold => hkept.truthful.registered ((hmem (by simp)).mp htold), fun htold other => ?_⟩,
    fun signal hsignal hlogin => ?_, fun _ => ⟨.disconnected reason, by simp [SignOn.tell], rfl⟩⟩
  · cases handler with
    | login2 => exact ⟨hanswer.1, fun htold => hanswer.2 ((hmem (by simp)).mp htold)⟩
    | connect | register | login1 | widget => exact hanswer
  · rw [hmem (by simp)]
    exact hkept.truthful.letIn ((hmem (by simp)).mp htold) other
  · refine hkept.done signal ((hmem fun heq => ?_).mp hsignal) hlogin
    rw [heq] at hlogin
    exact absurd hlogin Bool.false_ne_true

theorem Kept.request (h : Kept backend cast md5 bystanders db state window) {conn : SignOn md5}
    (hconn : window.connection = some conn) (request : HAMRequest) :
    Kept backend cast md5 bystanders db state
      { window with connection := some (conn.send .widget request) } := by
  refine ⟨h.alive, h.running, h.server, fun other hother => ?_⟩
  obtain rfl := Option.some.inj hother
  have hkept := h.connection conn hconn
  obtain ⟨requests, hsent⟩ := conn.send_widget request
  rw [hsent]
  exact hkept.sent requests

section
variable {tables : List Table} (hlaw : backend.Lawful tables) (husers : Login.usersTable ∈ tables)
  (hlogbook : LogBook.logbookTable ∈ tables)
  (hrowids : AutomaticRowids backend Login.usersTable)
include hlaw husers hlogbook hrowids

theorem Kept.serve (hmd5 : HexDigest md5) (h : Kept backend cast md5 bystanders db state window)
    {conn : SignOn md5} (hconn : window.connection = some conn)
    (hguard : guard backend cast md5 bystanders window .serve = true) :
    Kept backend cast md5 bystanders db state (window.serve backend cast md5 bystanders conn) := by
  have hkept := h.connection conn hconn
  obtain ⟨past, hserver⟩ := h.server
  cases hrequests : conn.requests with
  | nil =>
    rw [MainWindow.serve, hrequests]
    exact h
  | cons request requests =>
    obtain ⟨handler, hnext, hasks⟩ := hkept.exists_next hrequests
    obtain ⟨reply, next, hexchange, hcrashed, hharmless, hlogin, hanswers⟩ :=
      exchange_next hlaw husers hserver hmd5 rfl hconn hkept h.running hguard hrequests hnext hasks
    have hstate := exchange_state hexchange
    have hcrashed' : ((manager backend cast md5 bystanders).answer conn.session window.server
        (asked request)).2.crashed = false := hstate ▸ hcrashed
    have hrows := answer_users hlaw husers hlogbook hrowids hserver hharmless hcrashed'
    have hnextServer := hserver.request hlaw husers hlogbook hrowids hharmless hcrashed'
    rw [hstate] at hrows hnextServer
    rw [MainWindow.serve, hrequests]
    simp only [hexchange]
    refine ⟨hcrashed, hcrashed, ⟨_, hnextServer⟩, fun other hother => ?_⟩
    obtain rfl := Option.some.inj hother
    refine hkept.serve hrequests hrows fun other hother _ => ?_
    obtain rfl := Option.some.inj (hnext.symm.trans hother)
    refine ⟨fun hwidget => ?_, hanswers⟩
    rw [← hstate]
    exact answer_account hlaw husers hserver.guarded.query (fun _ => hlogin hwidget) hcrashed'

theorem Kept.others (h : Kept backend cast md5 bystanders db state window) {session : ℕ}
    {request : Request}
    (hguard : guard backend cast md5 bystanders window (.others session request) = true) :
    let server := ((manager backend cast md5 bystanders).answer session window.server request).2
    Kept backend cast md5 bystanders db state
      { window with server, crashed := server.crashed } := by
  simp only [guard, Bool.and_eq_true, Bool.not_eq_true', decide_eq_true_eq] at hguard
  obtain ⟨⟨hsession, hharmless⟩, hcrashed⟩ := hguard
  obtain ⟨past, hserver⟩ := h.server
  refine ⟨hcrashed, hcrashed, ⟨_, hserver.request hlaw husers hlogbook hrowids hharmless hcrashed⟩,
    fun conn hconn => (h.connection conn hconn).follows ⟨?_, ?_⟩⟩
  · exact answer_users hlaw husers hlogbook hrowids hserver hharmless hcrashed
  · rw [Option.mem_def.mp hconn, Option.all_some, bne_iff_ne] at hsession
    exact answer_account hlaw husers hserver.guarded.query
      (fun heq => absurd heq.symm hsession) hcrashed

omit hlaw husers hlogbook hrowids in
theorem Kept.deliver (h : Kept backend cast md5 bystanders db state window) {conn : SignOn md5}
    (hconn : window.connection = some conn) (hup : conn.up = true) {start : Bytes}
    (hguard : guard backend cast md5 bystanders window (.deliver start) = true) :
    Kept backend cast md5 bystanders db state (window.deliver conn start) := by
  have hkept := h.connection conn hconn
  cases hreplies : conn.replies with
  | nil =>
    rw [MainWindow.deliver, hreplies]
    exact h
  | cons reply replies =>
    obtain ⟨handler, handlers, hhandlers⟩ := hkept.exists_handler hreplies
    have hread : handler = .connect →
        (hamConnectHandleResponse start conn.modules reply).isSome = true := by
      rintro rfl
      simpa only [guard, hconn, Option.all_some, hhandlers, hreplies] using hguard
    obtain ⟨next, hhandled, hnext⟩ :=
      hkept.handleReply hup hhandlers hreplies window.register hread
    rw [MainWindow.deliver, hreplies, hhandlers]
    simp only [hhandled]
    refine ⟨h.alive, h.running, h.server, fun other hother => ?_⟩
    obtain rfl := Option.some.inj hother
    exact hnext

end

/-! ## A registration and a login -/

def sampleCredentials : Credentials Gate.sampleMd5 where
  username := sampleName
  password := samplePassword
  name := ⟨by decide, by decide, by decide, by decide, by decide⟩
  clean := by decide
  fits := by decide +kernel

/-- Somebody else asks for the list of modules in between. -/
def sampleEvents : List (Event Gate.sampleMd5 Unit) :=
  [.connectServer sampleCredentials true 0 none, .serve, .deliver (List.replicate 100 0), .serve,
    .others 1 { method := bytes "GET", uri := bytes "/modules" }, .deliver [], .serve, .deliver [],
    .serve, .deliver []]

end MainWindow
end Hamlog.Ui
