import Hamlog.Server.Responders.Login
import Hamlog.Wire.Csv

/-! # The logbook responder

`/logbook` and `/logbook/call/` send records of the user, `/logbook/add` stores
records and `/logbook/remove` deletes them. The query objects and the record map
belong to the responder, so they are shared by all sessions and keep what an
earlier request left in them.
-/
namespace Hamlog.Server
open Foundation Wire StorageBackend

/-- The members `m_getLogs`, `m_addLog`, `m_removeLog` and `m_record`; `m_addLog` points to
`m_record`. -/
structure LogBook where
  getLogsQuery : Select := { table := bytes "logbook" }
  addLogQuery : Insert := { table := bytes "logbook" }
  removeLogQuery : Select := { table := bytes "logbook" }
  record : StringMap := ∅

namespace LogBook

def logbookTable : Table where
  name := bytes "logbook"
  columns := [⟨bytes "id", .integer, true⟩, ⟨bytes "user_id", .integer, false⟩,
    ⟨bytes "qsodate", .datetime, false⟩, ⟨bytes "time_on", .string, false⟩,
    ⟨bytes "callsign", .string, false⟩, ⟨bytes "freq", .real, false⟩,
    ⟨bytes "mode", .string, false⟩, ⟨bytes "qth", .string, false⟩,
    ⟨bytes "name", .string, false⟩, ⟨bytes "loc", .string, false⟩,
    ⟨bytes "latitude", .string, false⟩, ⟨bytes "longitude", .string, false⟩,
    ⟨bytes "county", .string, false⟩, ⟨bytes "continent", .string, false⟩,
    ⟨bytes "itu", .integer, false⟩, ⟨bytes "cq", .integer, false⟩,
    ⟨bytes "rst_rx", .string, false⟩, ⟨bytes "rst_tx", .string, false⟩,
    ⟨bytes "qsl", .integer, false⟩, ⟨bytes "qsl_sent", .datetime, false⟩,
    ⟨bytes "qsl_received", .datetime, false⟩, ⟨bytes "qsl_via", .string, false⟩,
    ⟨bytes "comments", .string, false⟩]

/-- The first line of the records that are sent. -/
def header : Bytes :=
  bytes "id;user_id;qsodate;time_on;callsign;" ++ bytes "freq;mode;qth;name;loc;latitude;" ++
    bytes "longitude;county;continent;itu;cq;" ++ bytes "rst_rx;rst_tx;qsl;qsl_sent;" ++
    bytes "qsl_received;qsl_via\n"

/-- A last field that no separator ends is dropped. The position is counted without the wrap of its
`unsigned int`. -/
def parse (str : Bytes) : List (List Bytes) := (Tokens.scan false {} str).all

variable {δ : Type*} (backend : SQLite3 δ)

/-- A record behind the data so far: a `;` behind each column, the last one erased. -/
def appendEntry (data : Bytes) (entry : List Bytes) : Bytes :=
  (data ++ entry.flatMap (· ++ bytes ";")).dropLast ++ bytes "\n"

def sendLogs (account : Account) (book : LogBook) (db : δ) (reply : Reply) : LogBook × δ × Reply :=
  let getLogs := book.getLogsQuery.where_ (bytes "user_id") (decimal account.id)
  let selected := backend.select db getLogs
  ({ book with getLogsQuery := getLogs.reset }, selected.2.2,
    reply.setContent (selected.2.1.foldl appendEntry header))

def badRequest (content : Bytes) (reply : Reply) : Reply :=
  (reply.setContent content).setStatus .badRequest

/-- `m_record[header[i]] = row[i]` for every column. -/
def fillRecord (record : StringMap) (header row : List Bytes) : StringMap :=
  (header.zip row).foldl (fun record column => record.insert column.1 column.2) record

/-- `m_record["id"]`, which creates the key if it is missing. -/
def withId (record : StringMap) : StringMap :=
  if record.contains (bytes "id") then record else record.insert (bytes "id") []

/-- A record of the body is inserted if its id is `-1`, and updated otherwise. The first result is
whether the next record is read. -/
def addRecord (account : Account) (header row : List Bytes) (book : LogBook) (db : δ)
    (reply : Reply) : Bool × LogBook × δ × Reply :=
  let record := withId (fillRecord book.record header row)
  let id := record.getD (bytes "id") []
  let userId := decimal account.id
  if id = bytes "-1" then
    let book := { book with record := (record.erase (bytes "id")).insert (bytes "user_id") userId }
    let inserted := backend.insert db book.addLogQuery book.record
    if inserted.1 then
      (true, book, inserted.2, reply.setContent
        (decimalInt (backend.lastInsertedID inserted.2) ++ bytes ";" ++ userId))
    else (false, book, inserted.2, badRequest (bytes "Bad input data or database error.") reply)
  else
    let book := { book with
      addLogQuery := (book.addLogQuery.where_ (bytes "user_id") userId).where_ (bytes "id") id
      record := (record.erase (bytes "user_id")).erase (bytes "id") }
    let updated := backend.update db book.addLogQuery book.record
    if updated.1 then (true, book, updated.2, reply.setContent (id ++ bytes ";" ++ userId))
    else (false, book, updated.2, badRequest (bytes "Bad input data or database error.") reply)

/-- The loop over the rows behind the header. -/
def addRecords (account : Account) (header : List Bytes) :
    List (List Bytes) → LogBook → δ → Reply → LogBook × δ × Reply
  | [], book, db, reply => (book, db, reply)
  | row :: rows, book, db, reply =>
    if row.isEmpty then addRecords account header rows book db reply
    else if header.length ≠ row.length then
      (book, db, badRequest (bytes "Bad column count.") reply)
    else
      let added := addRecord backend account header row book db reply
      if added.1 then addRecords account header rows added.2.1 added.2.2.1 added.2.2.2
      else added.2

def addLog (account : Account) (request : Request) (book : LogBook) (db : δ) (reply : Reply) :
    LogBook × δ × Reply :=
  let data := parse request.content
  addRecords backend account (data.headD []) data.tail { book with record := ∅ } db reply

/-- The loop over the ids; results of the deletions are not looked at. -/
def removeRecords (account : Account) : List Bytes → LogBook → δ → LogBook × δ
  | [], book, db => (book, db)
  | id :: ids, book, db =>
    let removeLog := (book.removeLogQuery.where_ (bytes "id") id).where_ (bytes "user_id")
      (decimal account.id)
    let removed := backend.remove db removeLog
    removeRecords account ids { book with removeLogQuery := removeLog } removed.2

def removeLog (account : Account) (request : Request) (book : LogBook) (db : δ) (reply : Reply) :
    LogBook × δ × Reply :=
  let ids := (parse request.content).headD []
  let removed := removeRecords backend account ids book db
  (removed.1, removed.2, reply.setContent (bytes "Removed."))

def callUri : Bytes := bytes "/logbook/call/"

def handleRequest (account : Account) (request : Request) (book : LogBook) (db : δ)
    (reply : Reply) : Bool × LogBook × δ × Reply :=
  if request.uri = bytes "/logbook" then (true, sendLogs backend account book db reply)
  else if request.uri = bytes "/logbook/add" then
    (true, addLog backend account request book db reply)
  else if request.uri = bytes "/logbook/remove" then
    (true, removeLog backend account request book db reply)
  else if callUri.isPrefixOf request.uri then
    let call := request.uri.drop callUri.length
    let book := { book with getLogsQuery := book.getLogsQuery.where_ (bytes "callsign") call }
    (true, sendLogs backend account book db reply)
  else (false, book, db, reply)

/-- The module, over sessions of type `ι`. -/
def responder (ι : Type*) : Responder (ι × Account) (δ × LogBook) where
  uri := bytes "/logbook"
  name := bytes "LogBook module"
  handleRequest session state request reply :=
    let handled := handleRequest backend session.2 request state.2 state.1 reply
    (handled.1, handled.2.2.2, (handled.2.2.1, handled.2.1))

end LogBook
end Hamlog.Server
