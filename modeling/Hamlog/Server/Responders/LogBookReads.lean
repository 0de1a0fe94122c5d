import Hamlog.Foundation.Runs
import Hamlog.Server.Responders.LogBook
import Hamlog.Server.SampleEngine

/-! # What a fetch of the logbook returns

The select of the logbook is one query object for all users and both fetches.
Every handler leaves it without conditions, so the conditions of a fetch are
those of its own request, whatever was handled before.
-/
namespace Hamlog.Server.LogBook
open Foundation Wire StorageBackend

variable {δ : Type*} (backend : SQLite3 δ)

/-! ## Runs of the responder -/

/-- A request of a session with an account, or a change of the database by somebody else. -/
inductive Event (δ : Type*) where
  | request (account : Account) (request : Request)
  | change (db : δ)

/-- The responder with its database. Every request comes with a new reply. -/
def system (start : δ) : System (LogBook × δ) (Event δ) where
  start := ({}, start)
  enabled _ _ := true
  step
    | state, .request account request =>
      let handled := handleRequest backend account request state.1 state.2 {}
      some (handled.2.1, handled.2.2.1)
    | state, .change db => some (state.1, db)

/-- The runs of the responder over all requests. -/
abbrev Run (start : δ) (past : List (Event δ)) (state : LogBook × δ) : Prop :=
  System.Run (system backend start) (fun _ _ => true) past state

/-- The conditions of a query are on the columns that its handler sets anew in every request. -/
def OwnConditions (wheres : StringMap) : Prop :=
  ∀ name value : Bytes, wheres[name]? = some value → name ∈ [bytes "user_id", bytes "id"]

/-- The query objects between requests. -/
structure Ready (book : LogBook) : Prop where
  getLogs : book.getLogsQuery = { table := bytes "logbook" }
  addLog : book.addLogQuery.table = bytes "logbook" ∧ OwnConditions book.addLogQuery.wheres
  removeLog : book.removeLogQuery.table = bytes "logbook" ∧ OwnConditions book.removeLogQuery.wheres

theorem ready_new : Ready {} :=
  ⟨rfl, ⟨rfl, fun name value h => by simp at h⟩, ⟨rfl, fun name value h => by simp at h⟩⟩

theorem OwnConditions.insert {wheres : StringMap} (h : OwnConditions wheres) {key : Bytes}
    (hkey : key ∈ [bytes "user_id", bytes "id"]) (value : Bytes) :
    OwnConditions (wheres.insert key value) :=
  StringMap.AllKeys.insert h key hkey value

theorem addRecord_ready (account : Account) (columns row : List Bytes) {book : LogBook} (db : δ)
    (reply : Reply) (h : Ready book) :
    Ready (addRecord backend account columns row book db reply).2.1 := by
  unfold addRecord
  dsimp only
  split_ifs
  · exact ⟨h.getLogs, h.addLog, h.removeLog⟩
  · exact ⟨h.getLogs, h.addLog, h.removeLog⟩
  all_goals
    exact ⟨h.getLogs, ⟨h.addLog.1, (h.addLog.2.insert (by simp) _).insert (by simp) _⟩,
      h.removeLog⟩

theorem addRecords_ready {account : Account} {columns : List Bytes} {rows : List (List Bytes)}
    {book : LogBook} {db : δ} {reply : Reply} (h : Ready book) :
    Ready (addRecords backend account columns rows book db reply).1 := by
  induction rows generalizing book db reply with
  | nil => exact h
  | cons row rows ih =>
    have hadded := addRecord_ready backend account columns row db reply h
    simp only [addRecords]
    split_ifs
    · exact ih h
    · exact h
    · exact ih hadded
    · exact hadded

theorem removeRecords_ready {account : Account} {ids : List Bytes} {book : LogBook} {db : δ}
    (h : Ready book) : Ready (removeRecords backend account ids book db).1 := by
  induction ids generalizing book db with
  | nil => exact h
  | cons id ids ih =>
    exact ih ⟨h.getLogs, h.addLog, h.removeLog.1,
      (h.removeLog.2.insert (by simp) id).insert (by simp) _⟩

theorem handleRequest_ready {account : Account} {request : Request} {book : LogBook} {db : δ}
    {reply : Reply} (h : Ready book) :
    Ready (handleRequest backend account request book db reply).2.1 := by
  have hreset (wheres : StringMap) :
      ({ book.getLogsQuery with wheres } : Select).reset = { table := bytes "logbook" } := by
    rw [h.getLogs]
    rfl
  unfold handleRequest
  split_ifs
  · exact ⟨hreset _, h.addLog, h.removeLog⟩
  · exact addRecords_ready backend ⟨h.getLogs, h.addLog, h.removeLog⟩
  · exact removeRecords_ready backend h
  · exact ⟨hreset _, h.addLog, h.removeLog⟩
  · exact h

variable {backend}

theorem ready_of_run {start : δ} {past : List (Event δ)} {state : LogBook × δ}
    (h : Run backend start past state) : Ready state.1 := by
  refine System.Run.invariant (I := fun _ state => Ready state.1) ready_new ?_ h
  intro past state event next hready _ _ hstep
  cases event with
  | request account request =>
    cases hstep
    exact handleRequest_ready backend hready
  | change db =>
    cases hstep
    exact hready

/-! ## Fetches -/

/-- The URI of a fetch of all records, or of those with a call sign. -/
def fetchUri : Option Bytes → Bytes
  | none => bytes "/logbook"
  | some call => callUri ++ call

/-- The select of a fetch, with the conditions of this fetch alone. -/
def fetchQuery (account : Account) (call : Option Bytes) : Select where
  table := bytes "logbook"
  wheres := (call.elim ∅ (Std.TreeMap.insert ∅ (bytes "callsign"))).insert (bytes "user_id")
    (decimal account.id)

/-- The records of a user. -/
def isOwn (account : Account) (row : Row) : Bool :=
  logbookTable.value row (bytes "user_id") == some (decimal account.id)

/-- The records that a fetch is about. -/
def isListed (account : Account) (call : Option Bytes) (row : Row) : Bool :=
  isOwn account row && call.all fun call => logbookTable.value row (bytes "callsign") == some call

/-- The texts of all columns of a record, an empty text for a null. -/
def recordTexts (row : Row) : List Bytes :=
  logbookTable.names.map fun name => cstr ((logbookTable.value row name).getD [])

/-- The line that is sent for a record. -/
def line (row : Row) : Bytes := List.intercalate (bytes ";") (recordTexts row) ++ bytes "\n"

theorem dropLast_separated (entry : List Bytes) (hne : entry ≠ []) :
    (entry.flatMap (· ++ bytes ";")).dropLast = List.intercalate (bytes ";") entry := by
  induction entry with
  | nil => simp at hne
  | cons text entry ih =>
    cases entry with
    | nil => simp [bytes, List.intercalate]
    | cons next entry =>
      have hcons : List.flatMap (· ++ bytes ";") (next :: entry) ≠ [] := by simp [bytes]
      rw [List.flatMap_cons, List.dropLast_append_of_ne_nil hcons, ih (by simp)]
      simp [List.intercalate]

theorem appendEntry_eq {data : Bytes} {entry : List Bytes} (hne : entry ≠ []) :
    appendEntry data entry = data ++ (List.intercalate (bytes ";") entry ++ bytes "\n") := by
  have hflat : entry.flatMap (· ++ bytes ";") ≠ [] := by
    obtain ⟨text, entry, rfl⟩ := List.exists_cons_of_ne_nil hne
    simp [bytes]
  rw [appendEntry, List.dropLast_append_of_ne_nil hflat, dropLast_separated entry hne,
    List.append_assoc]

theorem foldl_appendEntry (data : Bytes) (rows : List Row) :
    (rows.map recordTexts).foldl appendEntry data = data ++ rows.flatMap line := by
  induction rows generalizing data with
  | nil => simp
  | cons row rows ih =>
    rw [List.map_cons, List.foldl_cons, appendEntry_eq (by simp [recordTexts, logbookTable,
      Table.names]), ih, List.flatMap_cons, List.append_assoc]
    rfl

theorem mem_names {name : Bytes}
    (h : name ∈ [bytes "id", bytes "user_id", bytes "callsign"]) : name ∈ logbookTable.names := by
  have hall : [bytes "id", bytes "user_id", bytes "callsign"].all
      (fun name => logbookTable.names.contains name) = true := by decide
  simpa using List.all_eq_true.mp hall name h

theorem fetchQuery_wheres (account : Account) (call : Option Bytes) (name : Bytes) :
    (fetchQuery account call).wheres[name]? =
      if bytes "user_id" = name then some (decimal account.id)
      else if bytes "callsign" = name then call else none := by
  rw [fetchQuery, StringMap.getElem?_insert]
  cases call with
  | none => simp
  | some call => rw [Option.elim_some, StringMap.getElem?_insert]; simp

theorem filters_user (n : ℕ) : SQLite3.Filters logbookTable (bytes "user_id", decimal n) :=
  ⟨⟨bytes "user_id", .integer, false⟩, by decide, rfl, .inr (.inr ⟨rfl, n, rfl⟩)⟩

theorem filters_fetch (account : Account) (call : Option Bytes) (name value : Bytes)
    (h : (fetchQuery account call).wheres[name]? = some value) :
    SQLite3.Filters logbookTable (name, value) := by
  rw [fetchQuery_wheres] at h
  split_ifs at h with hname hname
  · cases h
    exact hname ▸ filters_user account.id
  · exact hname ▸ ⟨⟨bytes "callsign", .string, false⟩, by decide, rfl, .inl rfl⟩

/-- The conditions of a fetch are met by the records it is about. -/
theorem satisfies_fetch {tables : List Table} (hlaw : backend.Lawful tables) {account : Account}
    (hid : account.id < 2 ^ 63) {call : Option Bytes} (hcall : ∀ c ∈ call, 0 ∉ c) (row : Row) :
    backend.satisfies logbookTable (fetchQuery account call).wheres.toList row =
      isListed account call row := by
  have huserType : logbookTable.typeOf (bytes "user_id") = .integer := by decide
  have hcallType : logbookTable.typeOf (bytes "callsign") = .string := by decide
  have hne : bytes "user_id" ≠ bytes "callsign" := by decide
  have huser := hlaw.equals_integer (logbookTable.value row (bytes "user_id")) _ hid
  have hsign (c : Bytes) (hc : c ∈ call) :
      backend.equals .string (logbookTable.value row (bytes "callsign")) (cstr c) ↔
        logbookTable.value row (bytes "callsign") = some c := by
    rw [hlaw.equals_string, cstr_of_notMem (hcall c hc)]
  rw [Bool.eq_iff_iff, SQLite3.satisfies_toList, isListed, Bool.and_eq_true, isOwn, beq_iff_eq]
  constructor
  · intro h
    have hown := h (bytes "user_id") (decimal account.id) (by rw [fetchQuery_wheres, if_pos rfl])
    rw [huserType, cstr_decimal, huser] at hown
    refine ⟨hown, ?_⟩
    cases call with
    | none => rfl
    | some c =>
      have hc := h (bytes "callsign") c (by rw [fetchQuery_wheres, if_neg hne, if_pos rfl])
      rw [hcallType, hsign c rfl] at hc
      simpa using hc
  · rintro ⟨hown, hc⟩ name value hvalue
    rw [fetchQuery_wheres] at hvalue
    split_ifs at hvalue with hname hname
    · cases hvalue
      rw [← hname, huserType, cstr_decimal, huser]
      exact hown
    · rw [← hname, hcallType, hsign value hvalue]
      simpa [Option.mem_def.mp hvalue] using hc

theorem handleRequest_add {account : Account} {request : Request}
    (huri : request.uri = bytes "/logbook/add") {book : LogBook} {db : δ} {reply : Reply} :
    handleRequest backend account request book db reply =
      (true, addLog backend account request book db reply) := by
  rw [handleRequest, huri, if_neg (by decide), if_pos rfl]

/-- The result of a fetch when the query object has no conditions before it. -/
theorem handleRequest_fetch {account : Account} {request : Request} {call : Option Bytes}
    (huri : request.uri = fetchUri call) {book : LogBook} (h : Ready book) (db : δ)
    (reply : Reply) :
    handleRequest backend account request book db reply =
      (true, { book with getLogsQuery := { table := bytes "logbook" } },
        (backend.select db (fetchQuery account call)).2.2,
        reply.setContent ((backend.select db (fetchQuery account call)).2.1.foldl appendEntry
          header)) := by
  obtain ⟨getLogs, addLog, removeLog, record⟩ := book
  obtain rfl : getLogs = { table := bytes "logbook" } := h.getLogs
  rw [handleRequest, huri]
  cases call with
  | none => rfl
  | some call =>
    have hcalled : callUri.isPrefixOf (fetchUri (some call)) = true :=
      List.isPrefixOf_iff_prefix.mpr (List.prefix_append _ _)
    have hne (other : Bytes) (hother : callUri.isPrefixOf other = false) :
        fetchUri (some call) ≠ other := by
      rintro rfl
      exact Bool.false_ne_true (hother.symm.trans hcalled)
    rw [if_neg (hne _ (by decide)), if_neg (hne _ (by decide)), if_neg (hne _ (by decide)),
      if_pos hcalled]
    have hdrop : (fetchUri (some call)).drop callUri.length = call := List.drop_left
    rw [hdrop]
    rfl

/-- Whatever was handled before, a fetch lists records of its user, and with its call sign if it
has one: all of them if the select ends without an error, and else the first ones. -/
theorem fetch_lists {tables : List Table} (hlaw : backend.Lawful tables)
    (ht : logbookTable ∈ tables) {start : δ} {past : List (Event δ)} {state : LogBook × δ}
    (h : Run backend start past state) (account : Account) (hid : account.id < 2 ^ 63)
    (request : Request) (call : Option Bytes) (huri : request.uri = fetchUri call)
    (hcall : ∀ c ∈ call, 0 ∉ c) (reply : Reply) :
    let handled := handleRequest backend account request state.1 state.2 reply
    let listed := (backend.tableRows state.2 logbookTable).filter (isListed account call)
    handled.1 = true ∧ handled.2.2.1 = state.2 ∧
      (∃ count, handled.2.2.2 = reply.setContent (header ++ (listed.take count).flatMap line)) ∧
      ((backend.select state.2 (fetchQuery account call)).1 = true →
        handled.2.2.2 = reply.setContent (header ++ listed.flatMap line)) := by
  have hselected : (backend.selected state.2 logbookTable []
      (fetchQuery account call).wheres.toList).map SQLite3.texts =
        ((backend.tableRows state.2 logbookTable).filter
          (isListed account call)).map recordTexts := by
    rw [SQLite3.selected, List.map_map,
      List.filter_congr fun row _ => satisfies_fetch hlaw hid hcall row]
    exact List.map_congr_left fun row _ => List.map_map
  obtain ⟨hdb, hrows, hdone⟩ := hlaw.select_rows ht state.2 (fetchQuery account call) rfl
    (fun name hname => by simp [fetchQuery] at hname) (filters_fetch account call)
  rw [show (fetchQuery account call).what = [] from rfl, hselected] at hrows hdone
  dsimp only
  rw [handleRequest_fetch huri (ready_of_run h)]
  refine ⟨rfl, hdb, ?_, fun hend => ?_⟩
  · obtain ⟨count, hcount⟩ : ∃ count, (backend.select state.2 (fetchQuery account call)).2.1 =
        (((backend.tableRows state.2 logbookTable).filter (isListed account call)).take
          count).map recordTexts :=
      ⟨_, by rw [List.map_take]; exact List.prefix_iff_eq_take.mp hrows⟩
    exact ⟨count, by rw [hcount, foldl_appendEntry]⟩
  · rw [hdone hend, foldl_appendEntry]

/-! ## A run -/

def sampleBackend : SQLite3 SampleEngine.Database :=
  SampleEngine.backend [Login.usersTable, logbookTable]

theorem sampleBackend_lawful : sampleBackend.Lawful [Login.usersTable, logbookTable] :=
  SampleEngine.backend_lawful (by decide)

/-- A row of the logbook with these columns. -/
def sampleRow (columns : List (Bytes × Bytes)) : Row :=
  logbookTable.names.map fun name => columns.lookup name

/-- Records of two users. -/
def sampleRecords : List Row :=
  [sampleRow [(bytes "id", bytes "1"), (bytes "user_id", bytes "7"),
      (bytes "callsign", bytes "OK2JRQ"), (bytes "qth", bytes "Brno")],
    sampleRow [(bytes "id", bytes "2"), (bytes "user_id", bytes "8"),
      (bytes "callsign", bytes "OK2JRQ")],
    sampleRow [(bytes "id", bytes "3"), (bytes "user_id", bytes "7"),
      (bytes "callsign", bytes "OK1KVK")]]

def sampleDatabase : SampleEngine.Database where
  rows name := if name = bytes "logbook" then sampleRecords else []
  lastRowid := 3

def sampleAccount : Account := ⟨true, 7, bytes "hanicka"⟩

/-- A fetch with a call sign, and a request to add records that lacks a column. -/
def sampleEvents : List (Event SampleEngine.Database) :=
  [.request ⟨true, 8, bytes "petr"⟩ { uri := bytes "/logbook/call/OK1KVK" },
    .request sampleAccount
      { uri := bytes "/logbook/add", content := bytes "id;callsign;qth\n-1;OK1KVK\n" }]

theorem fetch_lists_sampleEvents : ∃ state,
    Run sampleBackend sampleDatabase sampleEvents state ∧
      (handleRequest sampleBackend sampleAccount { uri := bytes "/logbook/call/OK2JRQ" } state.1
        state.2 {}).2.2.2 =
        ({} : Reply).setContent (header ++ bytes "1;7;;;OK2JRQ;;;Brno;;;;;;;;;;;;;;;\n") := by
  have hdone : (System.exec (system sampleBackend sampleDatabase) (fun _ _ => true)
      ({}, sampleDatabase) sampleEvents).any (fun state =>
        (sampleBackend.select state.2 (fetchQuery sampleAccount (some (bytes "OK2JRQ")))).1 &&
          ((sampleBackend.tableRows state.2 logbookTable).filter
            (isListed sampleAccount (some (bytes "OK2JRQ")))).flatMap line ==
              bytes "1;7;;;OK2JRQ;;;Brno;;;;;;;;;;;;;;;\n") = true := by decide +kernel
  obtain ⟨state, hrun, hstate⟩ := System.exists_run_of_exec hdone
  rw [Bool.and_eq_true, beq_iff_eq] at hstate
  have h := fetch_lists sampleBackend_lawful (by decide) hrun sampleAccount (by decide)
    { uri := bytes "/logbook/call/OK2JRQ" } (some (bytes "OK2JRQ")) (by decide) (by decide) {}
  have hcontent := h.2.2.2 hstate.1
  rw [hstate.2] at hcontent
  exact ⟨state, hrun, hcontent⟩

end Hamlog.Server.LogBook
