import Hamlog.Library.Fetches
import Hamlog.Ui.Credentials
import Hamlog.Ui.LogbookFetch

/-! # The main window

The main window opens a connection, registers the account if it was asked to,
logs in, and is told how this ended. The requests of the connection and their
replies are on the way while other sessions are served. Of these steps there is
one on its way at most.
-/
namespace Hamlog.Ui
open Foundation Library Server StorageBackend Wire

/-! ## The connection of the window -/

/-- The response handlers of the steps, and those of the widgets. -/
inductive ResponseHandler where
  | connect | register | login1 | login2 | widget
  deriving DecidableEq

/-- The signals that the window handles. Errors have a reason. -/
inductive Told where
  | connected
  | disconnected (reason : Bytes)
  | registered
  | registrationFailed (reason : Bytes)
  | loggedIn
  | loginFailed (reason : Bytes)
  deriving DecidableEq

/-- Behind these nothing more is sent on its own. -/
def Told.isEnd : Told → Bool
  | .connected | .registered => false
  | .disconnected _ | .registrationFailed _ | .loggedIn | .loginFailed _ => true

/-- A login has ended. -/
def Told.isLogin : Told → Bool
  | .loggedIn | .loginFailed _ => true
  | _ => false

/-- A connection with the requests that the server has not read and the replies that the client has
not read. `up` says that it has a descriptor, `session` is its number at the server. -/
structure SignOn (md5 : Bytes → Bytes) where
  credentials : Credentials md5
  session : ℕ
  up : Bool := true
  handlers : List ResponseHandler := []
  requests : List HAMRequest := []
  replies : List HAMReply := []
  modules : HAMHashTable HAMModule := {}
  told : List Told := []

namespace SignOn
variable {md5 : Bytes → Bytes}

def send (conn : SignOn md5) (handler : ResponseHandler) (request : HAMRequest) : SignOn md5 :=
  if conn.up then
    { conn with handlers := conn.handlers ++ [handler], requests := conn.requests ++ [request] }
  else conn

def tell (conn : SignOn md5) (signal : Told) : SignOn md5 :=
  { conn with told := conn.told ++ [signal] }

/-- The requests of `ham_dxcluster_fetch`. A module without a URI would be a null text. -/
def fetchDxcluster (conn : SignOn md5) : Option (SignOn md5) :=
  (hamHashTableToList conn.modules).foldlM (fun conn module =>
    if module.type = dxclusterType then
      module.uri.map fun uri => conn.send .widget { method := bytes "GET", uri }
    else some conn) conn

/-- `ham_qrz_fetch_username`, if the server has the module. -/
def fetchUsername (conn : SignOn md5) : SignOn md5 :=
  if (hamHashTableLookup conn.modules (bytes "/qrz") (-1)).isSome then
    conn.send .widget { method := bytes "GET", uri := bytes "/qrz/username" }
  else conn

def handleConnected (conn : SignOn md5) (register : Bool) : SignOn md5 :=
  if register then
    conn.send .register (hamAccountRegister conn.credentials.username conn.credentials.password)
  else conn.send .login1 hamAccountLogin

/-- The widgets get the connection and fetch. -/
def handleLoggedIn (conn : SignOn md5) : Option (SignOn md5) :=
  ((conn.tell .loggedIn).send .widget hamLogbookFetch).fetchDxcluster

/-- The response handlers with what the window does when it is told. `start` is what the array of
the reader of the list of modules holds; `none` is an access outside of memory. -/
def handleReply (conn : SignOn md5) (register : Bool) (start : Bytes) (reply : HAMReply) :
    ResponseHandler → Option (SignOn md5)
  | .widget => some conn
  | .connect =>
    (hamConnectHandleResponse start conn.modules reply).map fun
      | (_, .signal .disconnected reason) => conn.tell (.disconnected reason)
      | (modules, _) => ({ conn with modules }.tell .connected).handleConnected register
  | .register =>
    if reply.status = 200 then some ((conn.tell .registered).send .login1 hamAccountLogin)
    else some (conn.tell (.registrationFailed (hamReplyGetContent reply)))
  | .login1 =>
    match hamLoginHandleGetResponse1 md5 conn.credentials.username conn.credentials.password
        reply with
    | .send request => some (conn.send .login2 request)
    | .stop => some conn
    | .loggedIn => conn.handleLoggedIn
    | .undefined => none
  | .login2 =>
    if reply.status = 401 then some (conn.tell (.loginFailed (bytes "Bad username or password")))
    else conn.fetchUsername.fetchDxcluster.bind handleLoggedIn

end SignOn

/-- The window, its connection and the server. -/
structure MainWindow (md5 : Bytes → Bytes) (σ : Type*) where
  register : Bool := false
  connection : Option (SignOn md5) := none
  server : σ
  crashed : Bool := false

namespace MainWindow
variable {δ ω : Type*} (backend : SQLite3 δ) (cast : LexicalCast) (md5 : Bytes → Bytes)
  (bystanders : List (Bystander ℕ ω backend))

/-- The dialog connects once. The server reads a request, the client a reply or that the connection
has ended, and a widget sends; others send over their own sessions, and modules change what is
theirs. -/
inductive Event (md5 : Bytes → Bytes) (ω : Type*) where
  | connectServer (credentials : Credentials md5) (register : Bool) (session : ℕ)
    (failed : Option Bytes)
  | serve
  | deliver (start : Bytes)
  | disconnected (reason : Bytes)
  | request (request : HAMRequest)
  | others (session : ℕ) (request : Request)
  | change (state : ω)

/-- The state of the server with its modules. -/
abbrev Server (δ ω : Type*) : Type _ := ServerState ℕ δ (Register × LogBook × ω)

abbrev manager : ModuleManager ℕ (Server δ ω) :=
  Gate.manager backend cast md5 (installed backend md5 bystanders)

variable {md5} in
def open_ (credentials : Credentials md5) (session : ℕ) : Option Bytes → SignOn md5
  | none => ({ credentials, session } : SignOn md5).send .connect modulesRequest
  | some reason => ({ credentials, session, up := false } : SignOn md5).tell (.disconnected reason)

def serve (window : MainWindow md5 (Server δ ω)) (conn : SignOn md5) :
    MainWindow md5 (Server δ ω) :=
  match conn.requests with
  | [] => window
  | request :: requests =>
    match exchange (manager backend cast md5 bystanders) conn.session window.server request with
    | none => { window with crashed := true }
    | some (reply, server) =>
      { window with
        connection := some { conn with requests, replies := conn.replies ++ [reply] }
        server
        crashed := server.crashed }

variable {md5} in
/-- A reply goes to the first handler. -/
def deliver (window : MainWindow md5 (Server δ ω)) (conn : SignOn md5) (start : Bytes) :
    MainWindow md5 (Server δ ω) :=
  match conn.replies, conn.handlers with
  | [], _ => window
  | _ :: replies, [] => { window with connection := some { conn with replies } }
  | reply :: replies, handler :: handlers =>
    match { conn with replies, handlers }.handleReply window.register start reply handler with
    | none => { window with crashed := true }
    | some conn => { window with connection := some conn }

def system (start : Server δ ω) : System (MainWindow md5 (Server δ ω)) (Event md5 ω) where
  start := { server := start }
  enabled window event :=
    !window.crashed &&
      match event with
      | .connectServer .. => window.connection.isNone
      | .serve => window.connection.any fun conn => !conn.requests.isEmpty
      | .deliver _ => window.connection.any fun conn => conn.up && !conn.replies.isEmpty
      | .disconnected _ => window.connection.any (·.up)
      | .request _ => window.connection.any (·.told.contains .loggedIn)
      | _ => true
  step window event :=
    match event, window.connection with
    | .connectServer credentials register session failed, _ =>
      some { window with register, connection := some (open_ credentials session failed) }
    | .serve, some conn => some (window.serve backend cast md5 bystanders conn)
    | .deliver start, some conn => some (window.deliver conn start)
    | .disconnected reason, some conn => some { window with
        connection := some ({ conn with up := false }.tell (.disconnected reason)) }
    | .request request, some conn => some { window with
        connection := some (conn.send .widget request) }
    | .others session request, _ =>
      let server := ((manager backend cast md5 bystanders).answer session window.server request).2
      some { window with server, crashed := server.crashed }
    | .change state, _ => some { window with server := { window.server with
        others := (window.server.others.1, window.server.others.2.1, state) } }
    | _, none => some window

instance (db : δ) : Decidable (UniqueNames backend db) :=
  inferInstanceAs (Decidable (∀ row ∈ _, ∀ other ∈ _, _ → _))

variable {md5} in
/-- The handler of the request that the server reads next. -/
def next (conn : SignOn md5) : Option ResponseHandler := conn.handlers[conn.replies.length]?

/-- What goes to other modules is answered without a crash, and the requests of the widgets and of
others are no logins of the session and write no harmful record; the query for the user's name is
done, and there are no two users of a name; the list of modules is read inside of its array. -/
def guard (window : MainWindow md5 (Server δ ω)) : Event md5 ω → Bool
  | .serve => window.connection.all fun conn =>
      conn.requests.head?.all fun request =>
        let exchanged := exchange (manager backend cast md5 bystanders) conn.session window.server
          request
        match next conn with
        | some .connect => exchanged.isSome
        | some .widget => exchanged.any (!·.2.crashed) &&
            (Gate.loginFields (asked request)).isNone && LogBook.Harmless (asked request)
        | some .login2 => (backend.select window.server.db
            (window.server.getUser.where_ (bytes "name") conn.credentials.username)).1 &&
              UniqueNames backend window.server.db
        | _ => true
  | .deliver start => window.connection.all fun conn =>
      match conn.handlers, conn.replies with
      | .connect :: _, reply :: _ => (hamConnectHandleResponse start conn.modules reply).isSome
      | _, _ => true
  | .others session request => window.connection.all (·.session != session) &&
      LogBook.Harmless request &&
        !((manager backend cast md5 bystanders).answer session window.server request).2.crashed
  | _ => true

abbrev Run (start : Server δ ω) : List (Event md5 ω) → MainWindow md5 (Server δ ω) → Prop :=
  System.Run (system backend cast md5 bystanders start) (guard backend cast md5 bystanders)

end MainWindow

/-! ## What a connection keeps -/

namespace SignOn
variable {md5 : Bytes → Bytes}

/-- The connection with the requests of widgets. -/
def sent (conn : SignOn md5) (requests : List HAMRequest) : SignOn md5 :=
  { conn with
    handlers := conn.handlers ++ requests.map fun _ => .widget
    requests := conn.requests ++ requests }

theorem sent_sent (conn : SignOn md5) (first second : List HAMRequest) :
    (conn.sent first).sent second = conn.sent (first ++ second) := by
  simp [sent]

theorem send_widget (conn : SignOn md5) (request : HAMRequest) :
    ∃ requests, conn.send .widget request = conn.sent requests := by
  by_cases hup : conn.up = true
  · exact ⟨[request], if_pos hup⟩
  · refine ⟨[], (if_neg hup).trans ?_⟩
    simp [sent]

/-- Every module of the table has a URI. -/
def HasUris (modules : HAMHashTable HAMModule) : Prop :=
  ∀ module ∈ hamHashTableToList modules, module.uri.isSome = true

theorem fetchDxcluster_sent {conn : SignOn md5} (h : HasUris conn.modules) :
    ∃ requests, conn.fetchDxcluster = some (conn.sent requests) := by
  have hall {modules : List HAMModule} (huris : ∀ module ∈ modules, module.uri.isSome = true)
      (conn : SignOn md5) : ∃ requests, modules.foldlM (fun conn module =>
        if module.type = dxclusterType then
          module.uri.map fun uri => conn.send .widget { method := bytes "GET", uri }
        else some conn) conn = some (conn.sent requests) := by
    induction modules generalizing conn with
    | nil => exact ⟨[], by simp [sent]⟩
    | cons module modules ih =>
      obtain ⟨huri, hrest⟩ := List.forall_mem_cons.mp huris
      obtain ⟨uri, huri⟩ := Option.isSome_iff_exists.mp huri
      rw [List.foldlM_cons]
      by_cases htype : module.type = dxclusterType
      · obtain ⟨first, hfirst⟩ := conn.send_widget { method := bytes "GET", uri }
        obtain ⟨others, hothers⟩ := ih hrest (conn.sent first)
        refine ⟨first ++ others, ?_⟩
        rw [if_pos htype, huri, Option.map_some, Option.bind_eq_bind, Option.bind_some, hfirst,
          hothers, sent_sent]
      · rw [if_neg htype, Option.bind_eq_bind, Option.bind_some]
        exact ih hrest conn
  exact hall h conn

theorem fetchUsername_sent (conn : SignOn md5) :
    ∃ requests, conn.fetchUsername = conn.sent requests := by
  unfold fetchUsername
  split_ifs
  · exact conn.send_widget _
  · exact ⟨[], by simp [sent]⟩

theorem handleLoggedIn_sent {conn : SignOn md5} (h : HasUris conn.modules) :
    ∃ requests, conn.handleLoggedIn = some ((conn.tell .loggedIn).sent requests) := by
  obtain ⟨first, hfirst⟩ := (conn.tell .loggedIn).send_widget hamLogbookFetch
  have huris : HasUris ((conn.tell .loggedIn).sent first).modules := h
  obtain ⟨others, hothers⟩ := fetchDxcluster_sent huris
  exact ⟨first ++ others, by rw [handleLoggedIn, hfirst, hothers, sent_sent]⟩

/-- The last step ends with the requests of the widgets. -/
theorem login2_sent {conn : SignOn md5} (h : HasUris conn.modules) :
    ∃ requests, conn.fetchUsername.fetchDxcluster.bind handleLoggedIn =
      some ((conn.tell .loggedIn).sent requests) := by
  obtain ⟨first, hfirst⟩ := conn.fetchUsername_sent
  have hfirstUris : HasUris (conn.sent first).modules := h
  obtain ⟨second, hsecond⟩ := fetchDxcluster_sent hfirstUris
  have huris : HasUris ((conn.sent first).sent second).modules := h
  obtain ⟨third, hthird⟩ := handleLoggedIn_sent huris
  refine ⟨first ++ second ++ third, ?_⟩
  rw [hfirst, hsecond, Option.bind_some, hthird, ← sent_sent, ← sent_sent]
  rfl

/-- The number of steps whose replies have not been handled. -/
def steps (handlers : List ResponseHandler) : ℕ := handlers.countP (· != .widget)

theorem steps_eq_zero {handlers : List ResponseHandler} :
    steps handlers = 0 ↔ ∀ handler ∈ handlers, handler = .widget := by
  simp [steps, List.countP_eq_zero]

theorem steps_append (first second : List ResponseHandler) :
    steps (first ++ second) = steps first + steps second :=
  List.countP_append

theorem steps_cons {handler : ResponseHandler} (h : handler ≠ .widget)
    (handlers : List ResponseHandler) : steps (handler :: handlers) = steps handlers + 1 :=
  List.countP_cons_of_pos (by simpa using h)

variable {δ ω : Type*} (backend : SQLite3 δ)

/-- The request of a step. -/
def Asks (credentials : Credentials md5) : ResponseHandler → HAMRequest → Prop
  | .connect, request => request = modulesRequest
  | .register, request =>
    request = hamAccountRegister credentials.username credentials.password
  | .login1, request => request = hamAccountLogin
  | .login2, request => request = credentials.response
  | .widget, _ => True

/-- What a reply says while it is on its way. -/
def Answers (conn : SignOn md5) (server : MainWindow.Server δ ω) :
    ResponseHandler → HAMReply → Prop
  | .connect, _ | .widget, _ => True
  | .register, reply => reply.status = 200 → conn.credentials.Registered backend server.db
  | .login1, reply => hamLoginHandleGetResponse1 md5 conn.credentials.username
      conn.credentials.password reply = .send conn.credentials.response
  | .login2, reply =>
    (reply.status ≠ 401 → conn.credentials.SignedIn backend conn.session server) ∧
      (.registered ∈ conn.told → reply.status ≠ 401)

/-- What the signals say. -/
structure Truthful (conn : SignOn md5) (server : MainWindow.Server δ ω) : Prop where
  loggedIn : .loggedIn ∈ conn.told → conn.credentials.SignedIn backend conn.session server
  registered : .registered ∈ conn.told → conn.credentials.Registered backend server.db
  letIn : .registered ∈ conn.told → ∀ reason, .loginFailed reason ∉ conn.told

/-- What holds of the connection between two events: there is one step on its way at most, and none
behind the end. -/
structure Kept (conn : SignOn md5) (server : MainWindow.Server δ ω) : Prop where
  paired : ∃ answered waiting, conn.handlers = answered ++ waiting ∧
    List.Forall₂ (Answers backend conn server) answered conn.replies ∧
    List.Forall₂ (Asks conn.credentials) waiting conn.requests
  single : steps conn.handlers ≤ 1
  uris : HasUris conn.modules
  truthful : Truthful backend conn server
  done : ∀ signal ∈ conn.told, signal.isLogin = true → steps conn.handlers = 0
  ended : steps conn.handlers = 0 ∨ conn.up = false → ∃ signal ∈ conn.told, signal.isEnd = true

/-- Only requests of widgets are on their way. -/
structure Idle (conn : SignOn md5) : Prop where
  lengths : conn.handlers.length = conn.replies.length + conn.requests.length
  noStep : steps conn.handlers = 0
  uris : HasUris conn.modules

/-- A step of the server that keeps the users and the account of the session. -/
structure Follows (session : ℕ) (server next : MainWindow.Server δ ω) : Prop where
  users : ∀ row ∈ backend.tableRows server.db Login.usersTable,
    row ∈ backend.tableRows next.db Login.usersTable
  account : next.accounts session = server.accounts session

variable {backend} {conn : SignOn md5} {server next : MainWindow.Server δ ω}

theorem Registered.mono {credentials : Credentials md5}
    (h : credentials.Registered backend server.db)
    (husers : ∀ row ∈ backend.tableRows server.db Login.usersTable,
      row ∈ backend.tableRows next.db Login.usersTable) :
    credentials.Registered backend next.db := by
  obtain ⟨row, hrow, hvalues⟩ := h
  exact ⟨row, husers row hrow, hvalues⟩

theorem Follows.signedIn {session : ℕ} (h : Follows backend session server next)
    {credentials : Credentials md5} (hsigned : credentials.SignedIn backend session server) :
    credentials.SignedIn backend session next := by
  obtain ⟨row, hrow, id, hopened, haccount⟩ := hsigned
  exact ⟨row, h.users row hrow, id, hopened, h.account.trans haccount⟩

theorem Follows.answers (h : Follows backend conn.session server next) {handler : ResponseHandler}
    {reply : HAMReply} (hanswers : Answers backend conn server handler reply) :
    Answers backend conn next handler reply := by
  cases handler with
  | register => exact fun hok => Registered.mono (hanswers hok) h.users
  | login2 => exact ⟨fun hne => h.signedIn (hanswers.1 hne), hanswers.2⟩
  | connect | login1 | widget => exact hanswers

theorem Kept.follows (h : Kept backend conn server)
    (hfollows : Follows backend conn.session server next) : Kept backend conn next := by
  obtain ⟨answered, waiting, hhandlers, hanswers, hasks⟩ := h.paired
  exact ⟨⟨answered, waiting, hhandlers, hanswers.imp fun _ _ => hfollows.answers, hasks⟩,
    h.single, h.uris, ⟨fun hmem => hfollows.signedIn (h.truthful.loggedIn hmem),
      fun hmem => Registered.mono (h.truthful.registered hmem) hfollows.users,
      h.truthful.letIn⟩, h.done, h.ended⟩

/-- The replies of widgets say nothing. -/
theorem answers_widgets {handlers : List ResponseHandler} (h : steps handlers = 0)
    {replies : List HAMReply} (hlength : handlers.length = replies.length) :
    List.Forall₂ (Answers backend conn server) handlers replies := by
  rw [steps_eq_zero] at h
  refine List.forall₂_iff_get.mpr ⟨hlength, fun i hi _ => ?_⟩
  rw [h _ (List.get_mem handlers ⟨i, hi⟩)]
  trivial

theorem asks_widgets {credentials : Credentials md5} {handlers : List ResponseHandler}
    (h : steps handlers = 0) {requests : List HAMRequest}
    (hlength : handlers.length = requests.length) :
    List.Forall₂ (Asks credentials) handlers requests := by
  rw [steps_eq_zero] at h
  refine List.forall₂_iff_get.mpr ⟨hlength, fun i hi _ => ?_⟩
  rw [h _ (List.get_mem handlers ⟨i, hi⟩)]
  trivial

theorem Kept.exists_next (h : Kept backend conn server) {request : HAMRequest}
    {requests : List HAMRequest} (hrequests : conn.requests = request :: requests) :
    ∃ handler, MainWindow.next conn = some handler ∧
      Asks conn.credentials handler request := by
  obtain ⟨answered, waiting, hhandlers, hanswers, hasks⟩ := h.paired
  rw [hrequests] at hasks
  obtain ⟨handler, waiting, hask, -, rfl⟩ := List.forall₂_cons_right_iff.mp hasks
  refine ⟨handler, ?_, hask⟩
  rw [MainWindow.next, hhandlers, ← hanswers.length_eq, List.getElem?_append_right le_rfl,
    Nat.sub_self]
  rfl

theorem Kept.exists_handler (h : Kept backend conn server) {reply : HAMReply}
    {replies : List HAMReply} (hreplies : conn.replies = reply :: replies) :
    ∃ handler handlers, conn.handlers = handler :: handlers := by
  obtain ⟨answered, waiting, hhandlers, hanswers, -⟩ := h.paired
  rw [hreplies] at hanswers
  obtain ⟨handler, answered, -, -, rfl⟩ := List.forall₂_cons_right_iff.mp hanswers
  exact ⟨handler, answered ++ waiting, hhandlers⟩

/-- The server has read the next request. -/
theorem Kept.serve (h : Kept backend conn server) {request : HAMRequest}
    {requests : List HAMRequest} (hrequests : conn.requests = request :: requests)
    (husers : ∀ row ∈ backend.tableRows server.db Login.usersTable,
      row ∈ backend.tableRows next.db Login.usersTable) {reply : HAMReply}
    (hreply : ∀ handler, MainWindow.next conn = some handler →
      Asks conn.credentials handler request →
      (handler = .widget → next.accounts conn.session = server.accounts conn.session) ∧
        Answers backend conn next handler reply) :
    Kept backend { conn with requests, replies := conn.replies ++ [reply] } next := by
  obtain ⟨answered, waiting, hhandlers, hanswers, hasks⟩ := h.paired
  rw [hrequests] at hasks
  obtain ⟨handler, waiting, hask, hrest, rfl⟩ := List.forall₂_cons_right_iff.mp hasks
  have hnext : MainWindow.next conn = some handler := by
    rw [MainWindow.next, hhandlers, ← hanswers.length_eq, List.getElem?_append_right le_rfl,
      Nat.sub_self]
    rfl
  obtain ⟨haccount, hanswer⟩ := hreply handler hnext hask
  have hpaired (hothers : List.Forall₂ (Answers backend conn next) answered conn.replies) :
      ∃ answered waiting, conn.handlers = answered ++ waiting ∧
        List.Forall₂ (Answers backend conn next) answered (conn.replies ++ [reply]) ∧
        List.Forall₂ (Asks conn.credentials) waiting requests := by
    refine ⟨answered ++ [handler], waiting, by simp [hhandlers], ?_, hrest⟩
    exact List.rel_append hothers (.cons hanswer .nil)
  by_cases hwidget : handler = .widget
  · have hfollows : Follows backend conn.session server next := ⟨husers, haccount hwidget⟩
    have hkept := h.follows hfollows
    exact ⟨hpaired (hanswers.imp fun _ _ => hfollows.answers), hkept.single, hkept.uris,
      ⟨hkept.truthful.loggedIn, hkept.truthful.registered, hkept.truthful.letIn⟩, hkept.done,
      hkept.ended⟩
  · have hone : steps answered = 0 ∧ steps conn.handlers ≠ 0 := by
      have hsingle := h.single
      rw [hhandlers, steps_append, steps_cons hwidget] at hsingle ⊢
      omega
    exact ⟨hpaired (answers_widgets hone.1 hanswers.length_eq), h.single, h.uris,
      ⟨fun hmem => absurd (h.done _ hmem rfl) hone.2,
        fun hmem => Registered.mono (h.truthful.registered hmem) husers, h.truthful.letIn⟩,
      h.done, h.ended⟩

/-- Widgets send whenever they like. -/
theorem Kept.sent (h : Kept backend conn server) (requests : List HAMRequest) :
    Kept backend (conn.sent requests) server := by
  obtain ⟨answered, waiting, hhandlers, hanswers, hasks⟩ := h.paired
  have hwidgets : steps (requests.map fun _ => ResponseHandler.widget) = 0 :=
    steps_eq_zero.mpr (List.forall_mem_map.mpr fun _ _ => rfl)
  have hsame : steps (conn.sent requests).handlers = steps conn.handlers :=
    (steps_append _ _).trans (by rw [hwidgets, Nat.add_zero])
  refine ⟨⟨answered, waiting ++ requests.map fun _ => .widget, ?_, hanswers, ?_⟩,
    hsame ▸ h.single, h.uris, ⟨h.truthful.loggedIn, h.truthful.registered, h.truthful.letIn⟩,
    fun signal hsignal hlogin => hsame ▸ h.done signal hsignal hlogin,
    fun hended => h.ended (hsame ▸ hended)⟩
  · simp [SignOn.sent, hhandlers]
  · exact List.rel_append hasks (asks_widgets hwidgets (List.length_map _))

/-! ### The handlers -/

theorem Kept.popWidget (h : Kept backend conn server) {handlers : List ResponseHandler}
    (hhandlers : conn.handlers = .widget :: handlers) {reply : HAMReply}
    {replies : List HAMReply} (hreplies : conn.replies = reply :: replies) :
    Kept backend { conn with replies, handlers } server := by
  obtain ⟨answered, waiting, happend, hanswers, hasks⟩ := h.paired
  rw [hreplies] at hanswers
  obtain ⟨handler, answered, -, hrest, rfl⟩ := List.forall₂_cons_right_iff.mp hanswers
  have hsame : steps conn.handlers = steps handlers := by
    rw [hhandlers]
    exact List.countP_cons_of_neg (by simp)
  have htail : handlers = answered ++ waiting := by
    rw [hhandlers, List.cons_append] at happend
    exact (List.cons.inj happend).2
  exact ⟨⟨answered, waiting, htail, hrest, hasks⟩, hsame ▸ h.single, h.uris,
    ⟨h.truthful.loggedIn, h.truthful.registered, h.truthful.letIn⟩,
    fun signal hsignal hlogin => hsame ▸ h.done signal hsignal hlogin,
    fun hended => h.ended (hsame ▸ hended)⟩

/-- The reply of a step leaves nothing but replies of widgets behind. -/
theorem Kept.popStep (h : Kept backend conn server) {handler : ResponseHandler}
    {handlers : List ResponseHandler} (hhandlers : conn.handlers = handler :: handlers)
    (hstep : handler ≠ .widget) {reply : HAMReply} {replies : List HAMReply}
    (hreplies : conn.replies = reply :: replies) :
    Idle { conn with replies, handlers } ∧ Answers backend conn server handler reply ∧
      ∀ signal ∈ conn.told, signal.isLogin = false := by
  obtain ⟨answered, waiting, happend, hanswers, hasks⟩ := h.paired
  rw [hreplies] at hanswers
  obtain ⟨first, answered, hanswer, hrest, rfl⟩ := List.forall₂_cons_right_iff.mp hanswers
  rw [hhandlers, List.cons_append] at happend
  obtain ⟨rfl, rfl⟩ := List.cons.inj happend
  have hsingle := h.single
  rw [hhandlers, steps_cons hstep] at hsingle
  refine ⟨⟨?_, Nat.le_zero.mp (Nat.le_of_succ_le_succ hsingle), h.uris⟩, hanswer,
    fun signal hsignal => ?_⟩
  · exact List.length_append.trans (congrArg₂ _ hrest.length_eq hasks.length_eq)
  · by_contra hlogin
    have hdone := h.done signal hsignal (by simpa using hlogin)
    rw [hhandlers, steps_cons hstep] at hdone
    omega

theorem Idle.sent (h : Idle conn) (requests : List HAMRequest) : Idle (conn.sent requests) := by
  refine ⟨?_, ?_, h.uris⟩
  · simp only [SignOn.sent, List.length_append, List.length_map, h.lengths, Nat.add_assoc]
  · refine (steps_append _ _).trans ?_
    rw [h.noStep, Nat.zero_add, steps_eq_zero]
    exact List.forall_mem_map.mpr fun _ _ => rfl

theorem Idle.tell (h : Idle conn) (signal : Told) : Idle (conn.tell signal) :=
  ⟨h.lengths, h.noStep, h.uris⟩

theorem Idle.paired (h : Idle conn) : ∃ answered waiting, conn.handlers = answered ++ waiting ∧
    steps answered = 0 ∧ steps waiting = 0 ∧ answered.length = conn.replies.length ∧
      waiting.length = conn.requests.length := by
  have hlengths := h.lengths
  have hsteps := h.noStep
  rw [← List.take_append_drop conn.replies.length conn.handlers, steps_append] at hsteps
  refine ⟨_, _, (List.take_append_drop conn.replies.length conn.handlers).symm, by omega,
    by omega, ?_, ?_⟩
  · rw [List.length_take, hlengths]
    omega
  · rw [List.length_drop, hlengths]
    omega

/-- It stays so when something has ended. -/
theorem Idle.kept (h : Idle conn) (htruthful : Truthful backend conn server)
    (hended : ∃ signal ∈ conn.told, signal.isEnd = true) : Kept backend conn server := by
  obtain ⟨answered, waiting, hhandlers, hanswered, hwaiting, hreplies, hrequests⟩ := h.paired
  exact ⟨⟨answered, waiting, hhandlers, answers_widgets hanswered hreplies,
    asks_widgets hwaiting hrequests⟩, h.noStep.trans_le (Nat.zero_le 1), h.uris, htruthful,
    fun _ _ _ => h.noStep, fun _ => hended⟩

/-- The next step is sent. -/
theorem Idle.send (h : Idle conn) (htruthful : Truthful backend conn server)
    (hlogin : ∀ signal ∈ conn.told, signal.isLogin = false) (hup : conn.up = true)
    {handler : ResponseHandler} (hstep : handler ≠ .widget) {request : HAMRequest}
    (hasks : Asks conn.credentials handler request) :
    Kept backend (conn.send handler request) server := by
  obtain ⟨answered, waiting, hhandlers, hanswered, hwaiting, hreplies, hrequests⟩ := h.paired
  have hone : steps (conn.handlers ++ [handler]) = 1 := by
    rw [steps_append, h.noStep, steps_cons hstep]
    rfl
  rw [SignOn.send, if_pos hup]
  refine ⟨⟨answered, waiting ++ [handler], by simp [hhandlers],
    answers_widgets hanswered hreplies, ?_⟩, hone.le, h.uris,
    ⟨htruthful.loggedIn, htruthful.registered, htruthful.letIn⟩, fun signal hsignal htrue => ?_,
    fun hended => ?_⟩
  · exact List.rel_append (asks_widgets hwaiting hrequests) (.cons hasks .nil)
  · exact absurd htrue (by rw [hlogin signal hsignal]; exact Bool.false_ne_true)
  · rcases hended with hzero | hdown
    · exact absurd (hone.symm.trans hzero) one_ne_zero
    · exact absurd (hup.symm.trans hdown) Bool.false_ne_true.symm

theorem Truthful.tell (h : Truthful backend conn server) {signal : Told}
    (hloggedIn : signal = .loggedIn → conn.credentials.SignedIn backend conn.session server)
    (hregistered : signal = .registered → conn.credentials.Registered backend server.db)
    (hletIn : .registered ∈ (conn.tell signal).told →
      ∀ reason, .loginFailed reason ∉ (conn.tell signal).told) :
    Truthful backend (conn.tell signal) server := by
  refine ⟨fun hmem => ?_, fun hmem => ?_, hletIn⟩
  · rcases List.mem_append.mp hmem with hmem | hmem
    · exact h.loggedIn hmem
    · exact hloggedIn (List.mem_singleton.mp hmem).symm
  · rcases List.mem_append.mp hmem with hmem | hmem
    · exact h.registered hmem
    · exact hregistered (List.mem_singleton.mp hmem).symm

theorem connectResponse_cases {start : Bytes} {table modules : HAMHashTable HAMModule}
    (huris : HasUris table) {reply : HAMReply} {event : Library.Event}
    (h : hamConnectHandleResponse start table reply = some (modules, event)) :
    HasUris modules ∧ event = .signal .connected [] ∨
      modules = table ∧ ∃ reason, event = .signal .disconnected reason := by
  unfold hamConnectHandleResponse at h
  split_ifs at h
  · obtain ⟨parsed, hparsed, heq⟩ := Option.map_eq_some_iff.mp h
    obtain ⟨rfl, rfl⟩ := Prod.mk.inj heq
    obtain ⟨lines, -, hadd⟩ := Option.bind_eq_some_iff.mp hparsed
    cases lines with
    | nil => exact absurd hadd (by simp)
    | cons header rows => exact .inl ⟨addModules_uris hadd huris, rfl⟩
  · obtain ⟨rfl, rfl⟩ := Prod.mk.inj (Option.some.inj h)
    exact .inr ⟨rfl, _, rfl⟩

/-- What a handler does with its reply keeps the connection. -/
theorem Kept.handleReply (h : Kept backend conn server) (hup : conn.up = true)
    {handler : ResponseHandler} {handlers : List ResponseHandler}
    (hhandlers : conn.handlers = handler :: handlers) {reply : HAMReply} {replies : List HAMReply}
    (hreplies : conn.replies = reply :: replies) (register : Bool) {start : Bytes}
    (hread : handler = .connect →
      (hamConnectHandleResponse start conn.modules reply).isSome = true) :
    ∃ next, ({ conn with replies, handlers } : SignOn md5).handleReply register start reply
      handler = some next ∧ Kept backend next server := by
  by_cases hwidget : handler = .widget
  · subst hwidget
    exact ⟨_, rfl, h.popWidget hhandlers hreplies⟩
  obtain ⟨hidle, hanswers, hlogin⟩ := h.popStep hhandlers hwidget hreplies
  let rest : SignOn md5 := { conn with replies, handlers }
  have hrest : Truthful backend rest server :=
    ⟨h.truthful.loggedIn, h.truthful.registered, h.truthful.letIn⟩
  -- no login has ended before
  have hnone {signal : Told} (hsignal : signal.isLogin = true) : signal ∉ conn.told := fun hmem =>
    Bool.false_ne_true ((hlogin signal hmem).symm.trans hsignal)
  have hletIn {signal : Told} (hsignal : signal.isLogin = false) (reason : Bytes) :
      .loginFailed reason ∉ conn.told ++ [signal] := by
    rw [List.mem_append, List.mem_singleton, not_or]
    refine ⟨hnone rfl, fun heq => ?_⟩
    rw [← heq] at hsignal
    exact absurd hsignal.symm Bool.false_ne_true
  have hends (signal : Told) (hsignal : signal.isEnd = true) :
      ∃ other ∈ conn.told ++ [signal], other.isEnd = true :=
    ⟨signal, by simp, hsignal⟩
  have hopen {signal : Told} (hsignal : signal.isLogin = false) :
      ∀ other ∈ conn.told ++ [signal], other.isLogin = false := by
    rw [List.forall_mem_append]
    exact ⟨hlogin, List.forall_mem_singleton.mpr hsignal⟩
  cases handler with
  | widget => exact absurd rfl hwidget
  | connect =>
    obtain ⟨⟨modules, event⟩, hresponse⟩ := Option.isSome_iff_exists.mp (hread rfl)
    rcases connectResponse_cases h.uris hresponse with ⟨huris, rfl⟩ | ⟨-, reason, rfl⟩
    · let listed : SignOn md5 := { rest with modules }
      refine ⟨(listed.tell .connected).handleConnected register, ?_, ?_⟩
      · simp only [SignOn.handleReply, hresponse, Option.map_some]
        rfl
      · have hidle' : Idle (listed.tell .connected) := ⟨hidle.lengths, hidle.noStep, huris⟩
        have hlisted : Truthful backend listed server :=
          ⟨hrest.loggedIn, hrest.registered, hrest.letIn⟩
        have htold : Truthful backend (listed.tell .connected) server :=
          hlisted.tell (by simp) (by simp) fun _ => hletIn rfl
        unfold handleConnected
        split_ifs
        · exact hidle'.send htold (hopen rfl) hup (by decide) rfl
        · exact hidle'.send htold (hopen rfl) hup (by decide) rfl
    · refine ⟨rest.tell (.disconnected reason), ?_, ?_⟩
      · simp only [SignOn.handleReply, hresponse, Option.map_some]
        rfl
      · exact (hidle.tell _).kept (hrest.tell (by simp) (by simp) fun _ => hletIn rfl)
          (hends _ rfl)
  | register =>
    by_cases hstatus : reply.status = 200
    · refine ⟨(rest.tell .registered).send .login1 hamAccountLogin, if_pos hstatus, ?_⟩
      have htold : Truthful backend (rest.tell .registered) server :=
        hrest.tell (by simp) (fun _ => hanswers hstatus) fun _ => hletIn rfl
      exact (hidle.tell _).send htold (hopen rfl) hup (by decide) rfl
    · refine ⟨rest.tell (.registrationFailed (hamReplyGetContent reply)), if_neg hstatus, ?_⟩
      exact (hidle.tell _).kept (hrest.tell (by simp) (by simp) fun _ => hletIn rfl) (hends _ rfl)
  | login1 =>
    refine ⟨rest.send .login2 conn.credentials.response, ?_, ?_⟩
    · have hchallenge : hamLoginHandleGetResponse1 md5 conn.credentials.username
          conn.credentials.password reply = .send conn.credentials.response := hanswers
      simp only [SignOn.handleReply, hchallenge]
      rfl
    · exact hidle.send hrest hlogin hup (by decide) rfl
  | login2 =>
    by_cases hstatus : reply.status = 401
    · refine ⟨rest.tell (.loginFailed (bytes "Bad username or password")), if_pos hstatus, ?_⟩
      refine (hidle.tell _).kept (hrest.tell (by simp) (by simp) fun hmem => ?_) (hends _ rfl)
      have hregistered : .registered ∈ conn.told := by simpa [SignOn.tell, rest] using hmem
      exact absurd hstatus (hanswers.2 hregistered)
    · have huris : HasUris rest.modules := h.uris
      obtain ⟨requests, hrequests⟩ := login2_sent huris
      refine ⟨(rest.tell .loggedIn).sent requests, (if_neg hstatus).trans hrequests, ?_⟩
      have htold : Truthful backend (rest.tell .loggedIn) server := by
        refine hrest.tell (fun _ => hanswers.1 hstatus) (by simp) fun _ reason hmem => ?_
        have hfailed : .loginFailed reason ∉ conn.told := hnone rfl
        exact hfailed (by simpa [SignOn.tell, rest] using hmem)
      exact ((hidle.tell _).sent requests).kept ⟨htold.loggedIn, htold.registered, htold.letIn⟩
        (hends _ rfl)

end SignOn

end Hamlog.Ui
