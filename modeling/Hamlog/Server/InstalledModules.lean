import Hamlog.Server.Responders.LogBookWrites
import Hamlog.Server.Responders.Register
import Hamlog.Server.SessionManager

/-! # The server with its modules

The login, register, logbook and root modules behind the session manager, beside
modules that keep off their tables. From the raw bytes of all connections it
follows who can change what: users only ever get more, and the records of a user
change only behind a login that has proved this user's password.
-/
namespace Hamlog.Server
open Foundation Wire StorageBackend

namespace LogBook
variable {δ : Type*} {backend : SQLite3 δ} {tables : List Table} (hlaw : backend.Lawful tables)
  (ht : logbookTable ∈ tables)
include hlaw ht

/-! ## Other tables -/

theorem insert_frame (query : Insert) (hquery : query.table = bytes "logbook") {record : StringMap}
    (hkeys : HarmlessKeys record) (db : δ) :
    backend.Frame logbookTable db (backend.insert db query record).2 := by
  rcases hlaw.insert_cases ht db query hquery hkeys.words with ⟨-, hsame⟩ | ⟨-, hframe, -⟩
  · exact fun name _ => hsame name
  · exact hframe

theorem update_frame (query : Insert) (hquery : query.table = bytes "logbook")
    (hwheres : OwnConditions query.wheres) {record : StringMap} (hkeys : HarmlessKeys record)
    (db : δ) : backend.Frame logbookTable db (backend.update db query record).2 := by
  rcases hlaw.update_cases ht db query hquery hkeys.words (ownConditions_names hwheres) with
    ⟨-, hsame⟩ | ⟨-, hframe, -⟩
  · exact fun name _ => hsame name
  · exact hframe

theorem remove_frame (query : Select) (hquery : query.table = bytes "logbook")
    (hwheres : OwnConditions query.wheres) (db : δ) :
    backend.Frame logbookTable db (backend.remove db query).2 := by
  rcases hlaw.remove_cases ht db query hquery (ownConditions_names hwheres) with
    ⟨-, hsame⟩ | ⟨-, hframe, -⟩
  · exact fun name _ => hsame name
  · exact hframe

theorem addRecord_frame (account : Account) {columns : List Bytes} (row : List Bytes)
    (hcolumns : ∀ name ∈ columns, isHarmless name = true) {book : LogBook} (hready : Ready book)
    (hrecord : HarmlessKeys book.record) (db : δ) (reply : Reply) :
    let added := addRecord backend account columns row book db reply
    backend.Frame logbookTable db added.2.2.1 ∧ HarmlessKeys added.2.1.record := by
  have hfilled := allKeys_withId (allKeys_fillRecord hrecord hcolumns row) (by decide)
  unfold addRecord
  dsimp only
  by_cases hnew : (withId (fillRecord book.record columns row)).getD (bytes "id") [] = bytes "-1"
  · have hkeys := (hfilled.erase (bytes "id")).insert (bytes "user_id") (by decide)
      (decimal account.id)
    have hframe := insert_frame hlaw ht book.addLogQuery hready.addLog.1 hkeys db
    rw [if_pos hnew]
    split_ifs <;> exact ⟨hframe, hkeys⟩
  · have hkeys := (hfilled.erase (bytes "user_id")).erase (bytes "id")
    have hframe := update_frame hlaw ht
      ((book.addLogQuery.where_ (bytes "user_id") (decimal account.id)).where_ (bytes "id")
        ((withId (fillRecord book.record columns row)).getD (bytes "id") []))
      hready.addLog.1 ((hready.addLog.2.insert (by simp) _).insert (by simp) _) hkeys db
    rw [if_neg hnew]
    split_ifs <;> exact ⟨hframe, hkeys⟩

theorem addRecords_frame (account : Account) {columns : List Bytes}
    (hcolumns : ∀ name ∈ columns, isHarmless name = true) {rows : List (List Bytes)}
    {book : LogBook} (hready : Ready book) (hrecord : HarmlessKeys book.record) (db : δ)
    (reply : Reply) :
    backend.Frame logbookTable db (addRecords backend account columns rows book db reply).2.1 := by
  induction rows generalizing book db reply with
  | nil => exact fun _ _ => rfl
  | cons row rows ih =>
    obtain ⟨hframe, hkeys⟩ := addRecord_frame hlaw ht account row hcolumns hready hrecord db reply
    have hready' := addRecord_ready backend account columns row db reply hready
    simp only [addRecords]
    split_ifs
    · exact ih hready hrecord db reply
    · exact fun _ _ => rfl
    · exact fun name hname => (ih hready' hkeys _ _ name hname).trans (hframe name hname)
    · exact hframe

theorem removeRecords_frame (account : Account) {ids : List Bytes} {book : LogBook}
    (hready : Ready book) (db : δ) :
    backend.Frame logbookTable db (removeRecords backend account ids book db).2 := by
  induction ids generalizing book db with
  | nil => exact fun _ _ => rfl
  | cons id ids ih =>
    have hwheres : OwnConditions ((book.removeLogQuery.where_ (bytes "id") id).where_
        (bytes "user_id") (decimal account.id)).wheres :=
      (hready.removeLog.2.insert (by simp) id).insert (by simp) _
    have hframe := remove_frame hlaw ht
      ((book.removeLogQuery.where_ (bytes "id") id).where_ (bytes "user_id") (decimal account.id))
      hready.removeLog.1 hwheres db
    intro name hname
    rw [removeRecords]
    refine Eq.trans ?_ (hframe name hname)
    refine ih ?_ _ name hname
    exact ⟨hready.getLogs, hready.addLog, hready.removeLog.1, hwheres⟩

end LogBook

/-! ## What a request may do -/

/-- Users stay, a new one has a row identifier, and records change only for a session that is
authenticated, and only those of its user. -/
structure Respects {δ : Type*} (backend : SQLite3 δ) (account : Account) (db next : δ) : Prop where
  users : ∀ row ∈ backend.tableRows db Login.usersTable,
    row ∈ backend.tableRows next Login.usersTable
  ids : Login.AutomaticIds backend db → Login.AutomaticIds backend next
  records : backend.tableRows next LogBook.logbookTable =
      backend.tableRows db LogBook.logbookTable ∨
    account.authenticated = true ∧ Isolated (LogBook.isOwn account)
      (backend.tableRows db LogBook.logbookTable) (backend.tableRows next LogBook.logbookTable)

/-- What SQLite documents of a row identifier that no statement names: when those of the table are
not negative, the new one is not either. -/
def AutomaticRowids {δ : Type*} (backend : SQLite3 δ) (table : Table) : Prop :=
  ∀ (db : δ) {sets : List (Bytes × Bytes)}, SQLite3.AutomaticRowid table sets →
    (∀ row ∈ backend.tableRows db table, ∀ column ∈ table.columns, column.primaryKey = true →
      ∃ n < 2 ^ 63, table.value row column.name = some (decimal n)) →
    let outcome := backend.run db
      (insertText (backend.tablePrefix ++ table.name) (sets.map (·.1))) (sets.map (·.2))
    outcome.done = true → ∃ n : ℕ, n < 2 ^ 63 ∧ backend.lastInsertRowid outcome.db = n

namespace Respects
variable {δ : Type*} {backend : SQLite3 δ} {account : Account} {db next : δ}

theorem of_rows
    (h : ∀ table ∈ [Login.usersTable, LogBook.logbookTable],
      backend.tableRows next table = backend.tableRows db table) :
    Respects backend account db next := by
  have husers := h Login.usersTable (by simp)
  refine ⟨fun row hrow => husers ▸ hrow, fun hids row hrow => ?_, .inl (h _ (by simp))⟩
  exact hids row (husers ▸ hrow)

theorem of_frame (hframe : backend.Frame LogBook.logbookTable db next)
    (hauth : account.authenticated = true)
    (hisolated : Isolated (LogBook.isOwn account) (backend.tableRows db LogBook.logbookTable)
      (backend.tableRows next LogBook.logbookTable)) : Respects backend account db next := by
  have hne : backend.tablePrefix ++ Login.usersTable.name ≠
      backend.tablePrefix ++ LogBook.logbookTable.name := by
    rw [Ne, List.append_cancel_left_eq]
    decide
  have husers : backend.tableRows next Login.usersTable = backend.tableRows db Login.usersTable :=
    hframe _ hne
  refine ⟨fun row hrow => husers ▸ hrow, fun hids row hrow => ?_, .inr ⟨hauth, hisolated⟩⟩
  exact hids row (husers ▸ hrow)

end Respects

namespace LogBook
variable {δ : Type*} {backend : SQLite3 δ} {tables : List Table} (hlaw : backend.Lawful tables)
  (ht : logbookTable ∈ tables)
include hlaw ht

/-- A body that is sent to `/logbook/add` cannot touch the records of other users. -/
def Harmless (request : Request) : Prop :=
  request.uri = bytes "/logbook/add" → HarmlessBody request.content

omit hlaw ht in
instance (request : Request) : Decidable (Harmless request) :=
  inferInstanceAs (Decidable (_ → _))

/-- A fetch changes nothing. -/
theorem fetch_db (account : Account) {request : Request} {call : Option Bytes}
    (huri : request.uri = fetchUri call) {book : LogBook} (hready : Ready book) (db : δ)
    (reply : Reply) : (handleRequest backend account request book db reply).2.2.1 = db := by
  rw [handleRequest_fetch huri hready]
  exact (hlaw.select_rows ht db (fetchQuery account call) rfl
    (fun name hname => by simp [fetchQuery] at hname) (filters_fetch account call)).1

theorem handleRequest_respects {account : Account} (hid : account.id < 2 ^ 63)
    (hauth : account.authenticated = true) {request : Request} (hharmless : Harmless request)
    {book : LogBook} (hready : Ready book) (db : δ) (reply : Reply) :
    Respects backend account db (handleRequest backend account request book db reply).2.2.1 := by
  have hsame {next : δ} (h : next = db) : Respects backend account db next :=
    .of_rows fun table _ => congrArg (backend.tableRows · table) h
  by_cases hfetch : ∃ call, request.uri = fetchUri call
  · obtain ⟨call, huri⟩ := hfetch
    exact hsame (fetch_db hlaw ht account huri hready db reply)
  unfold handleRequest
  split_ifs with hall hadd hremove hcall
  · exact absurd ⟨none, hall⟩ hfetch
  · have hready' : Ready { book with record := ∅ } :=
      ⟨hready.getLogs, hready.addLog, hready.removeLog⟩
    cases hreaches : reachesStore request.content with
    | false => exact hsame (addRecords_unreached db hreaches)
    | true =>
      have hempty : HarmlessKeys { book with record := ∅ }.record :=
        fun name value hvalue => by simp at hvalue
      have hcolumns := hharmless hadd hreaches
      exact .of_frame (addRecords_frame hlaw ht account hcolumns hready' hempty db reply) hauth
        (addRecords_isolated hlaw ht hid db hcolumns hready' hempty)
  · exact .of_frame (removeRecords_frame hlaw ht account hready db) hauth
      (removeRecords_isolated hlaw ht hid db hready)
  · refine absurd ⟨some (request.uri.drop callUri.length), ?_⟩ hfetch
    exact (List.prefix_iff_eq_append.mp (List.isPrefixOf_iff_prefix.mp hcall)).symm
  · exact hsame rfl

end LogBook

namespace Register
variable {δ : Type*} {backend : SQLite3 δ} {tables : List Table}

theorem fill_words (register : Register) (username password : Bytes) :
    ∀ set ∈ (register.fill username password).m.toList,
      set.1 ∈ [bytes "name", bytes "password"] :=
  (register.fill username password).keys.toList

theorem mem_users {name : Bytes} (h : name ∈ [bytes "name", bytes "password"]) :
    isWord name = true ∧ (∀ other ∈ SQLite3.rowidNames, sameName name other = false) ∧
      ∀ column ∈ Login.usersTable.columns, column.primaryKey →
        sameName name column.name = false := by
  simp only [List.mem_cons, List.not_mem_nil, or_false] at h
  rcases h with rfl | rfl <;> decide

theorem usersTable_key {column : Column} (hcolumn : column ∈ Login.usersTable.columns)
    (hkey : column.primaryKey = true) : column.name = bytes "id" := by
  have hall : Login.usersTable.columns.all
      (fun column => !column.primaryKey || column.name == bytes "id") = true := by decide
  simpa [hkey] using List.all_eq_true.mp hall column hcolumn

/-- A registration adds a user. -/
theorem insert_respects (hlaw : backend.Lawful tables) (ht : Login.usersTable ∈ tables)
    (hrowids : AutomaticRowids backend Login.usersTable) (account : Account) (register : Register)
    (username password : Bytes) (db : δ) :
    Respects backend account db
      (backend.insert db addUserQuery (register.fill username password).m).2 := by
  have hkeys := register.fill_words username password
  have hauto : SQLite3.AutomaticRowid Login.usersTable (register.fill username password).m.toList :=
    fun set hset => (mem_users (hkeys set hset)).2
  rcases hlaw.insert_cases ht db addUserQuery rfl
      fun set hset => (mem_users (hkeys set hset)).1 with
    ⟨-, hsame⟩ | ⟨hdone, hframe, before, row, after, hold, hnew, hrow, -⟩
  · exact .of_rows fun table _ => hsame _
  · have hne : backend.tablePrefix ++ LogBook.logbookTable.name ≠
        backend.tablePrefix ++ Login.usersTable.name := by
      rw [Ne, List.append_cancel_left_eq]
      decide
    refine ⟨fun user huser => ?_, fun hids user huser => ?_, .inl (hframe _ hne)⟩
    · rw [hold] at huser
      refine hnew ▸ List.mem_append.mpr ?_
      exact (List.mem_append.mp huser).imp_right (List.mem_cons_of_mem row)
    · have huser' : user ∈ before ++ row :: after := hnew ▸ huser
      rcases List.mem_append.mp huser' with hmem | hmem
      · exact hids user (hold ▸ List.mem_append_left after hmem)
      · rcases List.mem_cons.mp hmem with rfl | hmem
        · obtain ⟨n, hn, hrowid⟩ := hrowids db hauto (fun other hother column hcolumn hkey => by
            rw [usersTable_key hcolumn hkey]
            exact hids other hother) hdone
          have hid := hrow ⟨bytes "id", .integer, true⟩ (by decide)
          refine ⟨n, hn, ?_⟩
          rw [if_pos rfl] at hid
          exact hid.trans (congrArg some ((congrArg decimalInt hrowid).trans rfl))
        · exact hids user (hold ▸ List.mem_append_right before hmem)

end Register

theorem Login.handleRequest_db {δ : Type*} {backend : SQLite3 δ} {cast : LexicalCast}
    {md5 : Bytes → Bytes}
    {tables : List Table} (hlaw : backend.Lawful tables) (ht : usersTable ∈ tables)
    {account : Account} {getUser : Select} (hquery : QueryOk getUser) {db : δ} {request : Request}
    {reply : Reply} {result : Result δ}
    (h : handleRequest backend cast md5 account getUser db request reply = some result) :
    result.db = db := by
  unfold handleRequest at h
  split_ifs at h with hheader
  · cases h
    rfl
  · obtain ⟨fields, hfields, hrest⟩ := Option.bind_eq_some_iff.mp h
    have husername : 0 ∉ fields.getD (bytes "username") [] := by
      rw [Std.TreeMap.getD_eq_getD_getElem?]
      cases hvalue : fields[bytes "username"]? with
      | none => simp
      | some value => exact authorizationFields_cStrings hfields _ value hvalue
    have hdb := (select_user hlaw ht db hquery husername).1
    split_ifs at hrest
    · cases hrest
      rfl
    · dsimp only at hrest
      split at hrest
      · cases hrest
        exact hdb
      · obtain ⟨checked, -, rfl⟩ := Option.map_eq_some_iff.mp hrest
        exact hdb

/-! ## The installed modules -/

/-- A module that keeps off the tables of users and records. -/
structure Bystander (ι : Type*) {δ : Type*} (ω : Type*) (backend : SQLite3 δ) where
  responder : Responder (ι × Account) (δ × ω)
  not_login : responder.uri ≠ bytes "/login"
  keeps : ∀ session state request reply, ∀ table ∈ [Login.usersTable, LogBook.logbookTable],
    backend.tableRows (responder.handleRequest session state request reply).2.2.1 table =
      backend.tableRows state.1 table

/-- `Root`. -/
def rootResponder (ι δ ω : Type*) : Responder (ι × Account) (δ × ω) where
  uri := bytes "/"
  name := bytes "Root responder module"
  needAuthentication := false
  handleRequest _ state _ reply :=
    (true, (reply.setContentType (bytes "text/html")).setContent
      (bytes "<html><head></head><body>This is HamLog server. " ++
        bytes "Download HamLog and setup your username to connect it.</body></html>"), state)

def root (ι : Type*) {δ : Type*} (ω : Type*) (backend : SQLite3 δ) : Bystander ι ω backend where
  responder := rootResponder ι δ ω
  not_login := by
    have hne : bytes "/" ≠ bytes "/login" := by decide
    exact hne
  keeps _ _ _ _ _ _ := rfl

namespace LogBook
variable {ι δ ω : Type*}

/-- The logbook module with the state of the others. -/
def besideOthers (backend : SQLite3 δ) (ι ω : Type*) :
    Responder (ι × Account) (δ × LogBook × ω) :=
  { responder backend ι with
    handleRequest session state request reply :=
      let handled := (responder backend ι).handleRequest session (state.1, state.2.1) request reply
      (handled.1, handled.2.1, (handled.2.2.1, handled.2.2.2, state.2.2)) }

/-- Another module beside the logbook module. -/
def beside (responder : Responder (ι × Account) (δ × ω)) :
    Responder (ι × Account) (δ × LogBook × ω) :=
  { responder with
    handleRequest session state request reply :=
      let handled := responder.handleRequest session (state.1, state.2.2) request reply
      (handled.1, handled.2.1, (handled.2.2.1, state.2.1, handled.2.2.2)) }

end LogBook

/-- The login module comes in front of these. -/
def installed {ι δ ω : Type*} (backend : SQLite3 δ) (md5 : Bytes → Bytes)
    (bystanders : List (Bystander ι ω backend)) : OtherModules ι δ (Register × LogBook × ω) :=
  Register.withRegister backend md5
    { modules := LogBook.besideOthers backend ι ω ::
        bystanders.map fun bystander => LogBook.beside bystander.responder
      not_login := by
        have hne : bytes "/logbook" ≠ bytes "/login" := by decide
        intro other hother
        rcases List.mem_cons.mp hother with rfl | hother
        · exact hne
        · obtain ⟨bystander, -, rfl⟩ := List.mem_map.mp hother
          exact bystander.not_login }

/-- A module is the register module, the logbook module or a bystander. -/
theorem installed_cases {ι δ ω : Type*} {backend : SQLite3 δ} {md5 : Bytes → Bytes}
    {bystanders : List (Bystander ι ω backend)}
    {module : Responder (ι × Account) (δ × Register × LogBook × ω)}
    (h : module ∈ (installed backend md5 bystanders).modules) :
    module = Register.responder backend md5 ι (LogBook × ω) ∨
      module = Register.beside (LogBook.besideOthers backend ι ω) ∨
      ∃ bystander ∈ bystanders, module = Register.beside (LogBook.beside bystander.responder) := by
  rcases List.mem_cons.mp h with rfl | h
  · exact .inl rfl
  · obtain ⟨other, hother, rfl⟩ := List.mem_map.mp h
    rcases List.mem_cons.mp hother with rfl | hother
    · exact .inr (.inl rfl)
    · obtain ⟨bystander, hmem, rfl⟩ := List.mem_map.mp hother
      exact .inr (.inr ⟨bystander, hmem, rfl⟩)

namespace Installed
variable {δ ω : Type*} {backend : SQLite3 δ} {cast : LexicalCast} {md5 : Bytes → Bytes}

section
variable (backend cast md5) (bystanders : List (Bystander ℕ ω backend)) (finished : ℕ → ω → ω)

/-- The modules as the server with its session manager uses them. On their own, and when a session
is finished, only the bystanders change their state. -/
def modules : Modules (ServerState ℕ δ (Register × LogBook × ω)) ω where
  answer := (Gate.manager backend cast md5 (installed backend md5 bystanders)).answer
  change c server := { server with others := (server.others.1, server.others.2.1, c) }
  finished sid server := finished sid server.others.2.2
  crashed server := server.crashed
  crashed_answer {sid server} request hcrashed := by
    rw [ModuleManager.answer_state]
    cases hcalled : (Gate.manager backend cast md5 (installed backend md5 bystanders)).called sid
        server request with
    | none => exact hcrashed
    | some responder =>
      rcases List.mem_cons.mp (ModuleManager.called_mem hcalled).1 with rfl | hmem
      · simp only [Gate.loginResponder]
        split
        · rfl
        · exact hcrashed
      · obtain ⟨other, -, rfl⟩ := List.mem_map.mp hmem
        exact hcrashed
  crashed_change _ _ := rfl

theorem noKeys : (∅ : StringMap).AllKeys (· ∈ [bytes "name", bytes "password"]) := by
  intro name value h
  simp at h

/-- The states of the other modules before any event. -/
abbrev initial (state : ω) : Register × LogBook × ω := ({ keys := noKeys }, {}, state)

/-- The state before any event. -/
def start (db : δ) (state : ω) : ServerState ℕ δ (Register × LogBook × ω) where
  db := db
  others := initial state

/-- The records of the user with an identifier. -/
def recordsOf (id : ℕ) (db : δ) : List Row :=
  (backend.tableRows db LogBook.logbookTable).filter fun row => LogBook.isOwn { id } row

variable (db : δ) (state : ω)

/-- The runs of the modules as they are installed. -/
abbrev ModuleRun :=
  SessionManager.ModuleRun (modules backend cast md5 bystanders finished) (start db state)

/-- The last complete login of the session proved the password of a user, whose identifier is `id`
and whom the modules had in the database when the login came in. -/
def LetIn (past : List (SessionManager.ModuleEvent ω)) (sid id : ℕ) : Prop :=
  ∃ before login after fields server row,
    past = before ++ .request sid login :: after ∧ Gate.loginFields login = some fields ∧
    (∀ request, .request sid request ∈ after → Gate.loginFields request = none) ∧
    ModuleRun backend cast md5 bystanders finished db state before server ∧
    row ∈ backend.tableRows server.db Login.usersTable ∧ Login.Authorizes cast md5 fields row id

/-- The runs of the gate whose changes from outside are those of the bystanders. -/
inductive OwnRun : List (Gate.Event ℕ δ (Register × LogBook × ω)) →
    ServerState ℕ δ (Register × LogBook × ω) → Prop where
  | start : OwnRun [] (start db state)
  | request {past server} (run : OwnRun past server) (sid : ℕ) (request : Request)
      (alive : ((Gate.manager backend cast md5 (installed backend md5 bystanders)).answer sid server
        request).2.crashed = false) :
      OwnRun (past ++ [.request sid request])
        ((Gate.manager backend cast md5 (installed backend md5 bystanders)).answer sid server
          request).2
  | change {past server} (run : OwnRun past server) (c : ω) :
      OwnRun (past ++ [.change server.db (server.others.1, server.others.2.1, c)])
        { server with others := (server.others.1, server.others.2.1, c) }

/-- An event of the gate as one of the modules. -/
def moduleEvent : Gate.Event ℕ δ (Register × LogBook × ω) → SessionManager.ModuleEvent ω
  | .request sid request => .request sid request
  | .change _ others => .change others.2.2

/-- What holds of the users and the records behind every run. -/
structure Kept (past : List (Gate.Event ℕ δ (Register × LogBook × ω)))
    (server : ServerState ℕ δ (Register × LogBook × ω)) : Prop where
  guarded : Gate.Guarded backend cast md5 (installed backend md5 bystanders) db (initial state) past
    server
  ready : LogBook.Ready server.others.2.1
  ids : Login.AutomaticIds backend server.db
  accounts : ∀ sid, (server.accounts sid).authenticated = true → (server.accounts sid).id < 2 ^ 63
  users : ∀ row ∈ backend.tableRows db Login.usersTable,
    row ∈ backend.tableRows server.db Login.usersTable
  records : ∀ id, (recordsOf backend id server.db).Perm (recordsOf backend id db) ∨
    ∃ before sid, before <+: past ∧
      Gate.LetIn backend cast md5 (installed backend md5 bystanders) db (initial state) before
        sid id

end

variable {bystanders : List (Bystander ℕ ω backend)} {finished : ℕ → ω → ω} {db : δ} {state : ω}
  {tables : List Table} {past : List (Gate.Event ℕ δ (Register × LogBook × ω))}
  {server : ServerState ℕ δ (Register × LogBook × ω)}

/-- The records of another user stay when those of one user change. -/
theorem recordsOf_perm {account : Account} {old new : δ}
    (h : Isolated (LogBook.isOwn account) (backend.tableRows old LogBook.logbookTable)
      (backend.tableRows new LogBook.logbookTable)) {id : ℕ} (hid : id ≠ account.id) :
    (recordsOf backend id new).Perm (recordsOf backend id old) := by
  have hother (rows : List Row) : rows.filter (fun row => LogBook.isOwn { id } row) =
      (rows.filter fun row => !LogBook.isOwn account row).filter
        fun row => LogBook.isOwn { id } row := by
    rw [List.filter_filter]
    refine List.filter_congr fun row _ => ?_
    cases hown : LogBook.isOwn { id } row with
    | false => rfl
    | true =>
      have hvalue := beq_iff_eq.mp hown
      have hforeign : LogBook.isOwn account row = false := by
        rw [LogBook.isOwn, hvalue, beq_eq_false_iff_ne]
        exact fun heq => hid (decimal_injective (Option.some.inj heq))
      rw [hforeign]
      rfl
  rw [recordsOf, recordsOf, hother, hother (backend.tableRows old _)]
  exact h.filter _

/-- A request to another module than the login. -/
theorem other_respects (hlaw : backend.Lawful tables) (husers : Login.usersTable ∈ tables)
    (hlogbook : LogBook.logbookTable ∈ tables)
    (hrowids : AutomaticRowids backend Login.usersTable)
    (h : Kept backend cast md5 bystanders db state past server) (sid : ℕ) {request : Request}
    (huri : cutUri request.uri ≠ bytes "/login") (hharmless : LogBook.Harmless request) :
    let next := ((Gate.manager backend cast md5 (installed backend md5 bystanders)).answer sid
      server request).2
    Respects backend (server.accounts sid) server.db next.db ∧
      LogBook.Ready next.others.2.1 := by
  dsimp only
  rw [ModuleManager.answer_state]
  cases hcalled : (Gate.manager backend cast md5 (installed backend md5 bystanders)).called sid
      server request with
  | none => exact ⟨.of_rows fun _ _ => rfl, h.ready⟩
  | some responder =>
    obtain ⟨other, hother, rfl⟩ := Gate.called_other huri hcalled
    obtain ⟨-, -, hauth⟩ := ModuleManager.called_mem hcalled
    rcases installed_cases hother with rfl | rfl | ⟨bystander, -, rfl⟩
    · refine ⟨?_, h.ready⟩
      simp only [Gate.otherResponder, Register.responder, Register.handleRequest]
      split_ifs
      · exact .of_rows fun _ _ => rfl
      all_goals exact Register.insert_respects hlaw husers hrowids _ _ _ _ _
    · have hauthenticated := hauth rfl
      exact ⟨LogBook.handleRequest_respects hlaw hlogbook (h.accounts sid hauthenticated)
        hauthenticated hharmless h.ready _ _, LogBook.handleRequest_ready backend h.ready⟩
    · exact ⟨.of_rows fun table htable => bystander.keeps _ _ _ _ table htable, h.ready⟩

theorem kept_start (hids : Login.AutomaticIds backend db) :
    Kept backend cast md5 bystanders db state [] (start db state) :=
  ⟨⟨.start, Login.getUserQuery_ok, fun _ hauth => absurd hauth Bool.false_ne_true⟩,
    LogBook.ready_new, hids, fun _ hauth => absurd hauth Bool.false_ne_true, fun _ hrow => hrow,
    fun _ => .inl (.refl _)⟩

/-- A step that respects users and records, for an account that is let in if it is authenticated. -/
theorem Kept.step (h : Kept backend cast md5 bystanders db state past server)
    {event : Gate.Event ℕ δ (Register × LogBook × ω)}
    {next : ServerState ℕ δ (Register × LogBook × ω)}
    (hguarded : Gate.Guarded backend cast md5 (installed backend md5 bystanders) db (initial state)
      (past ++ [event]) next) (hready : LogBook.Ready next.others.2.1)
    (haccounts : ∀ sid, (next.accounts sid).authenticated = true →
      (next.accounts sid).id < 2 ^ 63) (sid : ℕ)
    (hrespects : Respects backend (server.accounts sid) server.db next.db) :
    Kept backend cast md5 bystanders db state (past ++ [event]) next := by
  refine ⟨hguarded, hready, hrespects.ids h.ids, haccounts,
    fun row hrow => hrespects.users row (h.users row hrow), fun id => ?_⟩
  have hbegins : past <+: past ++ [event] := List.prefix_append _ _
  have hbefore (hperm : (recordsOf backend id next.db).Perm (recordsOf backend id server.db)) :
      (recordsOf backend id next.db).Perm (recordsOf backend id db) ∨
        ∃ before sid, before <+: past ++ [event] ∧ Gate.LetIn backend cast md5
          (installed backend md5 bystanders) db (initial state) before sid id := by
    rcases h.records id with hsame | ⟨before, other, hbefore, hlet⟩
    · exact .inl (hperm.trans hsame)
    · exact .inr ⟨before, other, hbefore.trans hbegins, hlet⟩
  rcases hrespects.records with hsame | ⟨hauth, hisolated⟩
  · refine hbefore (.of_eq ?_)
    rw [recordsOf, hsame, recordsOf]
  · by_cases hid : id = (server.accounts sid).id
    · exact .inr ⟨past, sid, hbegins, hid ▸ h.guarded.accounts sid hauth⟩
    · exact hbefore (recordsOf_perm hisolated hid)

theorem Kept.change (h : Kept backend cast md5 bystanders db state past server)
    (hlaw : backend.Lawful tables) (husers : Login.usersTable ∈ tables) (c : ω) :
    Kept backend cast md5 bystanders db state
      (past ++ [.change server.db (server.others.1, server.others.2.1, c)])
      { server with others := (server.others.1, server.others.2.1, c) } := by
  have hrun := h.guarded.run.next (a := .change server.db (server.others.1, server.others.2.1, c))
    rfl rfl rfl
  exact h.step (Gate.guarded_of_run hlaw husers hrun) h.ready h.accounts 0
    (.of_rows fun _ _ => rfl)

/-- The identifier that a login gives a session is one of the table of users. -/
theorem login_id (hlaw : backend.Lawful tables) (husers : Login.usersTable ∈ tables)
    (h : Kept backend cast md5 bystanders db state past server) {sid : ℕ} {request : Request}
    {result : Login.Result δ}
    (hresult : Login.handleRequest backend cast md5 (server.accounts sid) server.getUser server.db
      request {} = some result) (hauth : result.account.authenticated = true) :
    result.account.id < 2 ^ 63 := by
  obtain ⟨-, hincomplete, hcomplete⟩ :=
    Login.handleRequest_result hlaw husers h.guarded.query hresult
  cases hcred : Login.credentials request with
  | none =>
    rw [hincomplete hcred] at hauth ⊢
    exact h.accounts sid hauth
  | some fields =>
    obtain ⟨row, hrow, hauthorizes⟩ := hcomplete fields hcred hauth
    obtain ⟨n, hn, hvalue⟩ := h.ids row hrow
    have hid := hauthorizes.id
    rw [Login.userText, hvalue, Option.getD_some, cstr_decimal,
      cast.read_decimal n (by omega), Option.some.injEq] at hid
    omega

theorem Kept.request (hlaw : backend.Lawful tables) (husers : Login.usersTable ∈ tables)
    (hlogbook : LogBook.logbookTable ∈ tables)
    (hrowids : AutomaticRowids backend Login.usersTable)
    (h : Kept backend cast md5 bystanders db state past server) {sid : ℕ} {request : Request}
    (hharmless : LogBook.Harmless request)
    (hcrashed : ((Gate.manager backend cast md5 (installed backend md5 bystanders)).answer sid
      server request).2.crashed = false) :
    Kept backend cast md5 bystanders db state (past ++ [.request sid request])
      ((Gate.manager backend cast md5 (installed backend md5 bystanders)).answer sid server
        request).2 := by
  have hrun := h.guarded.run.next (a := .request sid request) rfl rfl
    (show (if _ then none else some _) = _ from if_neg (by rw [hcrashed]; exact Bool.false_ne_true))
  have hguarded := Gate.guarded_of_run hlaw husers hrun
  by_cases huri : cutUri request.uri = bytes "/login"
  · rw [Gate.answer_login huri] at hcrashed hguarded ⊢
    obtain ⟨result, hresult, heq⟩ := Gate.loginResponder_result hcrashed
    rw [heq] at hguarded ⊢
    refine h.step hguarded h.ready (fun other hauth => ?_) sid (.of_rows fun table _ => ?_)
    · dsimp only at hauth ⊢
      by_cases hother : other = sid
      · subst hother
        rw [Function.update_self] at hauth ⊢
        exact login_id hlaw husers h hresult hauth
      · rw [Function.update_of_ne hother] at hauth ⊢
        exact h.accounts other hauth
    · rw [Login.handleRequest_db hlaw husers h.guarded.query hresult]
  · obtain ⟨hrespects, hready⟩ :=
      other_respects hlaw husers hlogbook hrowids h sid huri hharmless
    have haccounts := (Gate.answer_other backend cast md5 (installed backend md5 bystanders) sid
      server huri).1
    refine h.step hguarded hready (fun other hauth => ?_) sid hrespects
    rw [haccounts] at hauth ⊢
    exact h.accounts other hauth

/-! ## The gate behind the bytes -/

theorem OwnRun.gateRun (h : OwnRun backend cast md5 bystanders db state past server) :
    Gate.Run backend cast md5 (installed backend md5 bystanders) db (initial state)
      past server := by
  induction h with
  | start => exact .start
  | request _ sid request alive ih =>
    exact ih.next (a := .request sid request) rfl rfl
      (show (if _ then none else some _) = _ from if_neg (by rw [alive]; exact Bool.false_ne_true))
  | change _ c ih => exact ih.next rfl rfl rfl

theorem OwnRun.moduleRun (h : OwnRun backend cast md5 bystanders db state past server) :
    ModuleRun backend cast md5 bystanders finished db state (past.map moduleEvent) server := by
  induction h with
  | start => exact .start
  | request _ sid request alive ih =>
    rw [List.map_append]
    refine ih.next (a := .request sid request) rfl rfl ?_
    simp [SessionManager.moduleSystem, modules, Option.filter, alive]
  | change _ c ih =>
    rw [List.map_append]
    exact ih.next (a := .change c) rfl rfl rfl

theorem OwnRun.of_prefix (h : OwnRun backend cast md5 bystanders db state past server)
    {before : List (Gate.Event ℕ δ (Register × LogBook × ω))} (hbefore : before <+: past) :
    ∃ earlier, OwnRun backend cast md5 bystanders db state before earlier := by
  induction h with
  | start =>
    obtain rfl := List.prefix_nil.mp hbefore
    exact ⟨_, OwnRun.start⟩
  | request run sid request alive ih =>
    rcases List.prefix_concat_iff.mp hbefore with rfl | hbefore
    · exact ⟨_, run.request sid request alive⟩
    · exact ih hbefore
  | change run c ih =>
    rcases List.prefix_concat_iff.mp hbefore with rfl | hbefore
    · exact ⟨_, run.change c⟩
    · exact ih hbefore

/-- Along such a run, who is let in by the gate has logged in as a user of the modules' database. -/
theorem OwnRun.letIn (h : OwnRun backend cast md5 bystanders db state past server)
    {before : List (Gate.Event ℕ δ (Register × LogBook × ω))} (hbefore : before <+: past)
    {sid id : ℕ} (hlet : Gate.LetIn backend cast md5 (installed backend md5 bystanders) db
      (initial state) before sid id) :
    LetIn backend cast md5 bystanders finished db state (before.map moduleEvent) sid id := by
  obtain ⟨first, login, after, fields, earlier, row, rfl, hfields, hafter, hrun, hrow⟩ := hlet
  obtain ⟨other, hown⟩ := h.of_prefix ((List.prefix_append _ _).trans hbefore)
  obtain rfl := hown.gateRun.unique hrun
  refine ⟨first.map moduleEvent, login, after.map moduleEvent, fields, other, row, by
    rw [List.map_append]; rfl, hfields, fun request hrequest => ?_, hown.moduleRun, hrow⟩
  obtain ⟨event, hevent, heq⟩ := List.mem_map.mp hrequest
  cases event with
  | request sid' request' =>
    cases heq
    exact hafter request hevent
  | change db' others => cases heq

theorem answer_of_step {sid : ℕ} {request : Request}
    {next : ServerState ℕ δ (Register × LogBook × ω)}
    (h : (SessionManager.moduleSystem (modules backend cast md5 bystanders finished)
      (start db state)).step server (.request sid request) = some next) :
    ((Gate.manager backend cast md5 (installed backend md5 bystanders)).answer sid server
        request).2 = next ∧
      ((Gate.manager backend cast md5 (installed backend md5 bystanders)).answer sid server
        request).2.crashed = false := by
  simp only [SessionManager.moduleSystem, modules, Option.filter_eq_some_iff, Option.some.injEq,
    Bool.not_eq_true'] at h
  exact ⟨h.1, h.1.symm ▸ h.2⟩

/-- The gate takes the events of the modules one by one. -/
theorem gate_simulation (hlaw : backend.Lawful tables) (husers : Login.usersTable ∈ tables)
    (hlogbook : LogBook.logbookTable ∈ tables)
    (hrowids : AutomaticRowids backend Login.usersTable) (hids : Login.AutomaticIds backend db) :
    System.Simulation
      (SessionManager.moduleSystem (modules backend cast md5 bystanders finished) (start db state))
      (Gate.system backend cast md5 (installed backend md5 bystanders) db (initial state))
      (fun _ _ => true) (fun _ _ => true) fun past past' server server' =>
        server' = server ∧ past'.map moduleEvent = past ∧
        OwnRun backend cast md5 bystanders db state past' server ∧
        ((∀ sid, ∀ request ∈ SessionManager.requestsOf sid past, LogBook.Harmless request) →
          Kept backend cast md5 bystanders db state past' server) where
  start := ⟨rfl, rfl, .start, fun _ => kept_start hids⟩
  step := by
    rintro _ past' _ server event next ⟨rfl, rfl, hown, hkept⟩ - - hstep
    cases event with
    | change c =>
      cases hstep
      refine ⟨[.change server.db (server.others.1, server.others.2.1, c)], _, rfl, rfl,
        by rw [List.map_append]; rfl, hown.change c, fun hharmless => ?_⟩
      refine (hkept fun sid request hrequest => hharmless sid request ?_).change hlaw husers c
      rw [SessionManager.requestsOf_append]
      exact List.mem_append_left _ hrequest
    | request sid request =>
      obtain ⟨rfl, hcrashed⟩ := answer_of_step hstep
      refine ⟨[.request sid request], _, ?_, rfl, by rw [List.map_append]; rfl,
        hown.request sid request hcrashed, fun hharmless => ?_⟩
      · simp only [System.exec, Gate.system, Bool.and_self, if_true, hcrashed, Bool.false_eq_true,
          if_false, Option.bind_some]
      · refine (hkept fun other earlier hearlier => hharmless other earlier ?_).request hlaw husers
          hlogbook hrowids (hharmless sid request ?_) hcrashed
        · rw [SessionManager.requestsOf_append]
          exact List.mem_append_left _ hearlier
        · rw [SessionManager.requestsOf_append]
          exact List.mem_append_right _ (by simp [SessionManager.requestsOf])

/-- Over the raw bytes of all connections, whose bodies for `/logbook/add` are harmless: there is an
order of requests, with those of a session in the order of its own bytes, that leads the modules to
the state of the server. No user was changed or removed, and if the records of a user are not those
of the start, a session has logged in before with the password that the modules' database had of
this user. -/
theorem records_kept (hlaw : backend.Lawful tables) (husers : Login.usersTable ∈ tables)
    (hlogbook : LogBook.logbookTable ∈ tables)
    (hrowids : AutomaticRowids backend Login.usersTable) (hids : Login.AutomaticIds backend db)
    {events : List (SessionManager.Event ω)}
    {server : SessionManager (ServerState ℕ δ (Register × LogBook × ω))}
    (hrun : SessionManager.Run (modules backend cast md5 bystanders finished) (start db state)
      events server)
    (hharmless : ∀ sid, ∀ request ∈ SessionManager.requestsIn (SessionManager.received sid events),
      LogBook.Harmless request) :
    ∃ past, ModuleRun backend cast md5 bystanders finished db state past server.modules ∧
      (∀ sid, SessionManager.requestsOf sid past <+:
        SessionManager.requestsIn (SessionManager.received sid events)) ∧
      (∀ row ∈ backend.tableRows db Login.usersTable,
        row ∈ backend.tableRows server.modules.db Login.usersTable) ∧
      ∀ id, ¬ (recordsOf backend id server.modules.db).Perm (recordsOf backend id db) →
        ∃ before sid, before <+: past ∧
          LetIn backend cast md5 bystanders finished db state before sid id := by
  obtain ⟨past, _, hmodules, rfl, hinter⟩ := (SessionManager.simulation _).run hrun
  have hregistered := SessionManager.registered_of_run hrun
  have hbegins := hinter.prefix_requestsIn hregistered
  obtain ⟨past', _, -, rfl, rfl, hown, hkept⟩ :=
    (gate_simulation hlaw husers hlogbook hrowids hids).run hmodules
  have hkept := hkept fun sid request hrequest =>
    hharmless sid request ((hbegins sid).subset hrequest)
  refine ⟨past'.map moduleEvent, hmodules, hbegins, hkept.users, fun id hchanged => ?_⟩
  obtain ⟨before, sid, hbefore, hlet⟩ := (hkept.records id).resolve_left hchanged
  exact ⟨before.map moduleEvent, sid, hbefore.map _, hown.letIn hbefore hlet⟩

end Installed

/-! ## A run -/

namespace SampleEngine

/-- The engine without statements behind which the last identifier is no row identifier. -/
def bounded (backend : SQLite3 Database) : SQLite3 Database :=
  { backend with
    exec db sql values :=
      let outcome := backend.exec db sql values
      let rowid := backend.lastInsertRowid outcome.db
      if 0 ≤ rowid ∧ rowid.toNat < 2 ^ 63 then outcome else fail db }

variable {backend : SQLite3 Database}

variable (backend) in
theorem run_bounded (db : Database) (sql : Bytes) (values : List Bytes) :
    (bounded backend).run db sql values = backend.run db sql values ∨
      (bounded backend).run db sql values = fail db := by
  simp only [SQLite3.run, bounded]
  split_ifs
  · exact .inl rfl
  · exact .inr rfl

theorem bounded_lawful {tables : List Table} (h : backend.Lawful tables) :
    (bounded backend).Lawful tables where
  select ht db _ _ hwhat hwheres := by
    have hselect := h.select ht db hwhat hwheres
    rcases run_bounded backend db _ _ with heq | heq
    · rw [heq]
      exact hselect
    · rw [heq]
      exact ⟨rfl, fun _ => ⟨List.nil_prefix, fun hdone => absurd hdone Bool.false_ne_true⟩⟩
  remove ht db _ hwheres := by
    have hremove := h.remove ht db hwheres
    rcases run_bounded backend db _ _ with heq | heq
    · rw [heq]
      exact hremove
    · rw [heq]
      exact .inl ⟨rfl, fun _ => rfl⟩
  insert ht db _ hsets := by
    have hinsert := h.insert ht db hsets
    rcases run_bounded backend db _ _ with heq | heq
    · rw [heq]
      exact hinsert
    · rw [heq]
      exact .inl ⟨rfl, fun _ => rfl⟩
  update ht db _ _ hsets hwheres := by
    have hupdate := h.update ht db hsets hwheres
    rcases run_bounded backend db _ _ with heq | heq
    · rw [heq]
      exact hupdate
    · rw [heq]
      exact .inl ⟨rfl, fun _ => rfl⟩
  equals_string := h.equals_string
  equals_integer := h.equals_integer
  store_string := h.store_string
  store_integer := h.store_integer

theorem automaticRowids_bounded (table : Table) : AutomaticRowids (bounded backend) table := by
  intro db sets _ _ outcome hdone
  simp only [outcome, SQLite3.run, bounded] at hdone ⊢
  split_ifs at hdone ⊢ with hbound
  · exact ⟨_, hbound.2, (Int.toNat_of_nonneg hbound.1).symm⟩
  · exact absurd hdone Bool.false_ne_true

end SampleEngine

namespace Installed

def sampleBackend : SQLite3 SampleEngine.Database := SampleEngine.bounded LogBook.sampleBackend

theorem sampleBackend_lawful : sampleBackend.Lawful [Login.usersTable, LogBook.logbookTable] :=
  SampleEngine.bounded_lawful LogBook.sampleBackend_lawful

def sampleServer : Modules (ServerState ℕ SampleEngine.Database (Register × LogBook × Unit)) Unit :=
  modules sampleBackend Gate.sampleCast Gate.sampleMd5 [root ℕ Unit sampleBackend]
    fun _ state => state

/-- The bytes of a session that logs in and sends a record. -/
def sampleBytes : Bytes :=
  bytes "GET /login HTTP/1.1\r\n" ++ Gate.sampleAuthorization.name ++ bytes ": " ++
    Gate.sampleAuthorization.value ++ bytes "\r\n\r\n" ++
    bytes "POST /logbook/add HTTP/1.1\r\nContent-Length: 22\r\n\r\n" ++
    bytes "id;callsign\n-1;OK1DST\n\r\n"

/-- Two connections; the second one asks for the list of modules in between, and is then closed. -/
def sampleEvents : List (SessionManager.Event Unit) :=
  [.accept, .accept, .read 0 (sampleBytes.take 100),
    .read 1 (bytes "GET /modules HTTP/1.1\r\n\r\n"), .read 0 (sampleBytes.drop 100), .readFailed 1]

theorem run_sampleEvents : ∃ server,
    SessionManager.Run sampleServer (start Gate.sampleUsers ()) sampleEvents server ∧
      server.sessions = [0] ∧ (server.session 0).currentReply = none ∧
      (recordsOf sampleBackend 7 server.modules.db).length = 1 := by
  have hstate : (System.exec (SessionManager.system sampleServer (start Gate.sampleUsers ()))
      (fun _ _ => true) (SessionManager.system sampleServer (start Gate.sampleUsers ())).start
      sampleEvents).any (fun server => server.sessions == [0] &&
        ((server.session 0).currentReply == none &&
          (recordsOf sampleBackend 7 server.modules.db).length == 1)) = true := by decide +kernel
  obtain ⟨server, hrun, hserver⟩ := System.exists_run_of_exec hstate
  rw [Bool.and_eq_true, Bool.and_eq_true, beq_iff_eq, beq_iff_eq, beq_iff_eq] at hserver
  exact ⟨server, hrun, hserver⟩

theorem server_run_sampleEvents : ∃ server,
    SessionManager.Run sampleServer (start Gate.sampleUsers ()) sampleEvents server ∧
    server.sessions = [0] ∧ ∃ past,
      SessionManager.ModuleRun sampleServer (start Gate.sampleUsers ()) past server.modules ∧
      SessionManager.requestsOf 0 past =
        SessionManager.requestsIn (SessionManager.received 0 sampleEvents) := by
  obtain ⟨server, hrun, hsessions, hcurrent, -⟩ := run_sampleEvents
  obtain ⟨⟨past, hpast, hrequests⟩, -⟩ := SessionManager.server_run hrun
  exact ⟨server, hrun, hsessions, past, hpast,
    (hrequests 0).2 (hsessions ▸ List.mem_singleton_self 0) hcurrent⟩

theorem automaticIds_sampleUsers : Login.AutomaticIds sampleBackend Gate.sampleUsers := by
  intro row hrow
  have hrows : sampleBackend.tableRows Gate.sampleUsers Login.usersTable =
      [[some (bytes "7"), some (bytes "hanicka"), some (bytes "secret")]] := rfl
  rw [hrows] at hrow
  obtain rfl := List.mem_singleton.mp hrow
  exact ⟨7, by norm_num, by decide⟩

theorem harmless_sampleEvents (sid : ℕ) : ∀ request ∈
    SessionManager.requestsIn (SessionManager.received sid sampleEvents),
      LogBook.Harmless request := by
  have hfirst : ∀ request ∈ SessionManager.requestsIn (SessionManager.received 0 sampleEvents),
      LogBook.Harmless request := by decide +kernel
  have hsecond : ∀ request ∈ SessionManager.requestsIn (SessionManager.received 1 sampleEvents),
      LogBook.Harmless request := by decide +kernel
  match sid with
  | 0 => exact hfirst
  | 1 => exact hsecond
  | sid + 2 =>
    have hnone : SessionManager.received (sid + 2) sampleEvents = [] := by
      simp [SessionManager.received, sampleEvents]
    rw [hnone]
    exact fun request hrequest => absurd hrequest List.not_mem_nil

/-- The records of user 7 change, so session 0 has logged in as this user. -/
theorem records_kept_sampleEvents : ∃ past before sid, before <+: past ∧
    LetIn sampleBackend Gate.sampleCast Gate.sampleMd5 [root ℕ Unit sampleBackend]
      (fun _ state => state) Gate.sampleUsers () before sid 7 := by
  obtain ⟨server, hrun, -, -, hlength⟩ := run_sampleEvents
  obtain ⟨past, -, -, -, hrecords⟩ := records_kept sampleBackend_lawful (by decide) (by decide)
    (SampleEngine.automaticRowids_bounded _) automaticIds_sampleUsers hrun harmless_sampleEvents
  obtain ⟨before, sid, hbefore, hlet⟩ := hrecords 7 fun hperm => by
    have hsame := hperm.length_eq
    rw [hlength] at hsame
    exact absurd hsame (by decide)
  exact ⟨past, before, sid, hbefore, hlet⟩

end Installed

end Hamlog.Server
