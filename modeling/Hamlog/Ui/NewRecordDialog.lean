import Hamlog.Server.Responders.LogBookStored
import Hamlog.Ui.LogbookFetch
import Hamlog.Ui.LogbookTree

/-! # The dialog of a record

`NewRecordDialog` reads a record from a document of one row and prints what its
fields hold as another one. It is opened on an item of the tree, and while it is
open the data of a call sign and the frequency of the radio are put into it by
the same function. They name no id, and a document without one makes the record
of the dialog a new one.
-/
namespace Hamlog.Ui
open Foundation Wire Library Server StorageBackend

/-- The fields of the dialog; a date with its time is of type `θ`. `fetched` are the call signs
whose records the tree inside of the dialog was told to fetch. -/
structure NewRecordDialog (θ : Type) where
  id : Bytes := bytes "-1"
  call : Bytes := []
  qth : Bytes := []
  continent : Bytes := []
  cq : Bytes := []
  itu : Bytes := []
  latitude : Bytes := []
  longitude : Bytes := []
  name : Bytes := []
  frequency : Bytes := []
  start : θ
  fetched : List Bytes := []

/-- `QDateTime::toTime_t`, `QDateTime::setTime_t` and `QString::toUInt`. -/
structure QtTimes (θ : Type) where
  toTime : θ → ℕ
  ofTime : ℕ → θ
  toUInt : Bytes → ℕ

namespace NewRecordDialog
variable {θ : Type} (times : QtTimes θ)

/-- The header of `getCSV`. -/
def columns : List Bytes :=
  [bytes "id", bytes "callsign", bytes "qth", bytes "continent", bytes "cq", bytes "itu",
    bytes "latitude", bytes "longitude", bytes "name", bytes "freq", bytes "qsodate"]

def getCSV (dialog : NewRecordDialog θ) : Bytes :=
  let data := bytes "id;callsign;qth;continent;cq;itu;" ++
    bytes "latitude;longitude;name;freq;qsodate\n"
  let data := data ++ dialog.id ++ bytes ";" ++ dialog.call ++ bytes ";" ++ dialog.qth ++
    bytes ";" ++ dialog.continent ++ bytes ";" ++ dialog.cq ++ bytes ";" ++ dialog.itu ++
    bytes ";" ++ dialog.latitude ++ bytes ";" ++ dialog.longitude ++ bytes ";" ++ dialog.name ++
    bytes ";" ++ dialog.frequency ++ bytes ";"
  data ++ decimal (times.toTime dialog.start) ++ bytes "\n"

/-- `tokens[1][indexes[key]]` if there is such a column; a token that is not there crashes. -/
def entryOf (tokens : List (List Bytes)) (key : Bytes) : Option (Option Bytes) :=
  match (LogbookItems.indexesOf (tokens.headD []))[key]? with
  | none => some none
  | some i => ((tokens[1]?).bind (·[i]?)).map some

/-- The first name and the name, with a blank between them. -/
def fullName (fname name : Option Bytes) : Bytes :=
  let front := fname.getD []
  match name with
  | none => front
  | some name => (if front = [] then [] else front ++ bytes " ") ++ name

/-- The names that `setCSV` looks for. -/
def keys : List Bytes :=
  [bytes "fname", bytes "name", bytes "callsign", bytes "id", bytes "qsodate", bytes "qth",
    bytes "continent", bytes "cq", bytes "itu", bytes "latitude", bytes "longitude", bytes "freq"]

/-- Fields without a value keep what they hold, besides the id and the name. -/
def filled (dialog : NewRecordDialog θ) (value : Bytes → Option Bytes) : NewRecordDialog θ where
  id := (value (bytes "id")).getD (bytes "-1")
  call := (value (bytes "callsign")).getD dialog.call
  qth := (value (bytes "qth")).getD dialog.qth
  continent := (value (bytes "continent")).getD dialog.continent
  cq := (value (bytes "cq")).getD dialog.cq
  itu := (value (bytes "itu")).getD dialog.itu
  latitude := (value (bytes "latitude")).getD dialog.latitude
  longitude := (value (bytes "longitude")).getD dialog.longitude
  name := fullName (value (bytes "fname")) (value (bytes "name"))
  frequency := (value (bytes "freq")).getD dialog.frequency
  start := ((value (bytes "qsodate")).map fun text => times.ofTime (times.toUInt text)).getD
    dialog.start
  fetched := dialog.fetched ++ (value (bytes "callsign")).toList

def setCSV (dialog : NewRecordDialog θ) (data : Bytes) : Option (NewRecordDialog θ) :=
  if data = [] then some dialog
  else
    let tokens := QtLogBook.tokenize (cstr data)
    if keys.all fun key => (entryOf tokens key).isSome then
      some (filled times dialog fun key => (entryOf tokens key).join)
    else none

/-! ## What is read from a table -/

/-- The value of a name in a row under its header. -/
theorem lookup_zip {header row : List Bytes} (hnodup : header.Nodup) {key : Bytes} {i : ℕ}
    (hi : header[i]? = some key) : (header.zip row).lookup key = row[i]? := by
  induction header generalizing row i with
  | nil => simp at hi
  | cons name header ih =>
    obtain ⟨hname, hrest⟩ := List.nodup_cons.mp hnodup
    cases row with
    | nil => simp
    | cons value row =>
      cases i with
      | zero =>
        obtain rfl : name = key := by simpa using hi
        simp
      | succ i =>
        have hne : (key == name) = false := by
          simpa using fun heq : key = name => hname (heq ▸ List.mem_of_getElem? hi)
        rw [List.zip_cons_cons, List.lookup_cons, hne]
        exact ih hrest hi

theorem lookup_missing {header : List Bytes} {key : Bytes} (h : key ∉ header) (row : List Bytes) :
    (header.zip row).lookup key = none := by
  rw [List.lookup_eq_none_iff]
  intro entry hentry
  simpa using fun heq : key = entry.1 => h (heq ▸ (List.of_mem_zip hentry).1)

/-- A row that is not too short gives each name of its header a value. -/
theorem entryOf_table {header row : List Bytes} (hnodup : header.Nodup)
    (hlength : header.length ≤ row.length) (rest : List (List Bytes)) (key : Bytes) :
    entryOf (header :: row :: rest) key = some ((header.zip row).lookup key) := by
  rw [entryOf, List.headD_cons]
  cases hindex : (LogbookItems.indexesOf header)[key]? with
  | none =>
    have hkey : key ∉ header := fun hmem => by
      obtain ⟨i, hi⟩ := List.mem_iff_getElem?.mp hmem
      rw [(LogbookItems.getElem?_indexesOf hnodup).mpr hi] at hindex
      exact absurd hindex (by simp)
    rw [lookup_missing hkey]
  | some i =>
    have hi := (LogbookItems.getElem?_indexesOf hnodup).mp hindex
    have hlt := (List.getElem?_eq_some_iff.mp hi).1.trans_le hlength
    rw [lookup_zip hnodup hi, List.getElem?_eq_getElem hlt]
    simp [List.getElem?_eq_getElem hlt]

/-- The text of a table of one row without separators in its fields. -/
theorem setCSV_table {header row : List Bytes} (hnodup : header.Nodup) (hne : header ≠ [])
    (hlength : header.length ≤ row.length)
    (hplain : ∀ fields ∈ [header, row], ∀ field ∈ fields, ∀ c ∈ field, Tokens.isPlain c)
    (dialog : NewRecordDialog θ) :
    setCSV times dialog (tableText [header, row]) =
      some (filled times dialog fun key => (header.zip row).lookup key) := by
  have hrow : row ≠ [] := by
    rintro rfl
    exact hne (List.length_eq_zero_iff.mp (Nat.le_zero.mp hlength))
  have hstands : List.Forall₂ (List.Forall₂ Tokens.Stands) [header, row] [header, row] :=
    List.forall₂_same.mpr fun fields hfields => LogBook.stands_self (hplain fields hfields)
  have htokens : QtLogBook.tokenize (cstr (tableText [header, row])) = header :: row :: [[]] := by
    rw [cstr_of_notMem (tableText_clean hplain).1]
    exact tokenize_finished (scan_tableText hstands (by simp [hne, hrow]) [])
  have hentries (key : Bytes) := entryOf_table hnodup hlength [[]] key
  rw [setCSV, if_neg (by simp [tableText]), htokens]
  simp [hentries]

/-- The values of the dialog in the order of the header. -/
def row (dialog : NewRecordDialog θ) : List Bytes :=
  [dialog.id, dialog.call, dialog.qth, dialog.continent, dialog.cq, dialog.itu, dialog.latitude,
    dialog.longitude, dialog.name, dialog.frequency, decimal (times.toTime dialog.start)]

theorem getCSV_eq (dialog : NewRecordDialog θ) :
    getCSV times dialog = tableText [columns, row times dialog] := by
  have hheader : bytes "id;callsign;qth;continent;cq;itu;" ++
      bytes "latitude;longitude;name;freq;qsodate\n" = Tokens.joined columns ++ [lf] := by
    decide +kernel
  have hend : bytes "\n" = [lf] := by decide
  unfold getCSV
  dsimp only
  rw [hheader, hend, tableText, List.flatMap_cons, List.flatMap_singleton]
  simp [row, Tokens.joined, List.intercalate]

theorem columns_ok : columns.Nodup ∧ columns ≠ [] ∧
    (∀ name ∈ columns, ∀ c ∈ name, Tokens.isPlain c) ∧
    ∀ name ∈ columns, name ∈ LogBook.logbookTable.names := by
  have hplain : columns.all (fun name => name.all Tokens.isPlain) = true := by decide +kernel
  refine ⟨by decide +kernel, List.cons_ne_nil _ _, fun name hname => ?_, by decide +kernel⟩
  exact List.all_eq_true.mp (List.all_eq_true.mp hplain name hname)

/-- What a dialog prints, any other dialog reads back, if there are no separators in the fields and
the date stands for one time only. -/
theorem setCSV_getCSV {dialog : NewRecordDialog θ}
    (hplain : ∀ field ∈ row times dialog, ∀ c ∈ field, Tokens.isPlain c)
    (htime : times.ofTime (times.toUInt (decimal (times.toTime dialog.start))) = dialog.start)
    (other : NewRecordDialog θ) :
    setCSV times other (getCSV times dialog) =
      some { dialog with fetched := other.fetched ++ [dialog.call] } := by
  rw [getCSV_eq, setCSV_table times columns_ok.1 columns_ok.2.1 (by simp [columns, row])
    (by simpa using ⟨columns_ok.2.2.1, hplain⟩)]
  have hvalue (i : ℕ) {key : Bytes} (hkey : columns[i]? = some key) :
      (columns.zip (row times dialog)).lookup key = (row times dialog)[i]? :=
    lookup_zip columns_ok.1 hkey
  have hfname : (columns.zip (row times dialog)).lookup (bytes "fname") = none :=
    lookup_missing (by decide +kernel) _
  rw [filled, hvalue 0 rfl, hvalue 1 rfl, hvalue 2 rfl, hvalue 3 rfl, hvalue 4 rfl, hvalue 5 rfl,
    hvalue 6 rfl, hvalue 7 rfl, hvalue 8 rfl, hvalue 9 rfl, hvalue 10 rfl, hfname]
  simp [row, fullName, htime]

def sampleTimes : QtTimes ℕ where
  toTime time := time
  ofTime seconds := seconds
  toUInt text := text.foldl (fun number c => 10 * number + (c.toNat - 48)) 0

def sampleDialog : NewRecordDialog ℕ where
  call := bytes "OK2JRQ"
  qth := bytes "Brno"
  name := bytes "Jan Kaluza"
  start := 1380000000

theorem setCSV_getCSV_sampleDialog :
    setCSV sampleTimes { start := 0 } (getCSV sampleTimes sampleDialog) =
      some { sampleDialog with fetched := [] ++ [sampleDialog.call] } := by
  have hplain : ((row sampleTimes sampleDialog).all fun field => field.all Tokens.isPlain) =
      true := by
    decide +kernel
  exact setCSV_getCSV sampleTimes (fun field hfield => List.all_eq_true.mp
    (List.all_eq_true.mp hplain field hfield)) (by decide +kernel) _

/-! ## The dialog of an item -/

theorem itemToCSV_table (toTime : Bytes → ℕ) (text : ℕ → Bytes) :
    LogbookTreeWidget.itemToCSV toTime text = tableText [headerLabels,
      (List.range headerLabels.length).map (LogbookTreeWidget.columnText toTime text)] := by
  have hne : headerLabels ≠ [] := List.cons_ne_nil _ _
  have hcolumns : (List.range headerLabels.length).map
      (LogbookTreeWidget.columnText toTime text) ≠ [] := by
    simpa using hne
  have hflat : ((List.range headerLabels.length).map
      (LogbookTreeWidget.columnText toTime text)).flatMap (· ++ bytes ";") ≠ [] := by
    obtain ⟨column, rest, hcons⟩ := List.exists_cons_of_ne_nil hcolumns
    rw [hcons]
    simp [bytes]
  have hend : bytes "\n" = [lf] := by decide
  unfold LogbookTreeWidget.itemToCSV
  dsimp only
  rw [List.dropLast_append_of_ne_nil hflat, LogBook.dropLast_separated _ hne,
    LogBook.dropLast_separated _ hcolumns, hend, tableText, List.flatMap_cons,
    List.flatMap_singleton, List.append_assoc]
  rfl

/-- The dialog that is opened on an item holds its id and the texts of its columns. -/
theorem setCSV_itemToCSV {toTime : Bytes → ℕ} {text : ℕ → Bytes}
    (hplain : ∀ i, ∀ c ∈ text i, Tokens.isPlain c) (dialog : NewRecordDialog θ) :
    setCSV times dialog (LogbookTreeWidget.itemToCSV toTime text) =
      some { id := LogbookTreeWidget.sentId text, call := text 4, qth := text 7,
             continent := text 13, cq := text 15, itu := text 14, latitude := text 10,
             longitude := text 11, name := text 8, frequency := text 5,
             start := times.ofTime (times.toUInt (decimal (toTime (text 2)))),
             fetched := dialog.fetched ++ [text 4] } := by
  have hcolumn : ∀ i, ∀ c ∈ LogbookTreeWidget.columnText toTime text i, Tokens.isPlain c := by
    intro i c hc
    unfold LogbookTreeWidget.columnText at hc
    split_ifs at hc
    · exact List.all_eq_true.mp (by decide : (bytes "-1").all Tokens.isPlain = true) c hc
    · exact LogBook.decimalInt_plain (toTime (text 2)) c hc
    · exact hplain i c hc
  have hrows : ∀ fields ∈ [headerLabels, (List.range headerLabels.length).map
      (LogbookTreeWidget.columnText toTime text)], ∀ field ∈ fields, ∀ c ∈ field,
        Tokens.isPlain c := by
    refine List.forall_mem_cons.mpr ⟨LogBook.headerColumns_plain, List.forall_mem_singleton.mpr ?_⟩
    exact List.forall_mem_map.mpr fun i _ => hcolumn i
  have hnodup : headerLabels.Nodup := LogBook.headerColumns_nodup.1
  rw [itemToCSV_table, setCSV_table times hnodup (List.cons_ne_nil _ _) (by simp) hrows]
  have hvalue (i : ℕ) {key : Bytes} (hkey : headerLabels[i]? = some key) :
      (headerLabels.zip ((List.range headerLabels.length).map
        (LogbookTreeWidget.columnText toTime text))).lookup key =
          some (LogbookTreeWidget.columnText toTime text i) := by
    have hlt := (List.getElem?_eq_some_iff.mp hkey).1
    rw [lookup_zip hnodup hkey, List.getElem?_map, List.getElem?_range hlt]
    rfl
  have hfname : (headerLabels.zip ((List.range headerLabels.length).map
      (LogbookTreeWidget.columnText toTime text))).lookup (bytes "fname") = none :=
    lookup_missing (by decide +kernel) _
  rw [filled, hvalue 0 rfl, hvalue 2 rfl, hvalue 4 rfl, hvalue 5 rfl, hvalue 7 rfl, hvalue 8 rfl,
    hvalue 10 rfl, hvalue 11 rfl, hvalue 13 rfl, hvalue 14 rfl, hvalue 15 rfl, hfname]
  simp [LogbookTreeWidget.columnText, LogbookTreeWidget.sentId, fullName]

/-! ## The dialog while it is open -/

/-- The user changes the visible fields or looks the call sign up, and the data of a call sign or
the frequency of the radio arrive. -/
inductive Event (θ : Type) where
  | edit (fields : NewRecordDialog θ)
  | callLookUp
  | callinfo (data : Bytes)
  | frequency (data : Bytes)

/-- The document that `setCSV` is given by `callinfo_handler` or `hamlib_handler`. -/
def Event.document : Event θ → Option Bytes
  | .edit _ | .callLookUp => none
  | .callinfo data => if data = [] then none else some data
  | .frequency data => some (bytes "freq\n" ++ data)

/-- A document that names no id. -/
def namesNoId (data : Bytes) : Bool :=
  !(LogbookItems.indexesOf ((QtLogBook.tokenize (cstr data)).headD [])).contains (bytes "id")

def system (opened : NewRecordDialog θ) : System (NewRecordDialog θ) (Event θ) where
  start := opened
  enabled _ _ := true
  step dialog event :=
    match event with
    | .edit fields => some { fields with id := dialog.id, fetched := dialog.fetched }
    | .callLookUp => some { dialog with fetched := dialog.fetched ++ [dialog.call] }
    | .callinfo data => setCSV times dialog data
    | .frequency data => setCSV times dialog (bytes "freq\n" ++ data)

abbrev Run (opened : NewRecordDialog θ) : List (Event θ) → NewRecordDialog θ → Prop :=
  System.Run (system times opened) fun _ event => event.document.all namesNoId

theorem setCSV_id {dialog next : NewRecordDialog θ} {data : Bytes} (hne : data ≠ [])
    (hid : namesNoId data = true) (h : setCSV times dialog data = some next) :
    next.id = bytes "-1" := by
  rw [setCSV, if_neg hne] at h
  dsimp only at h
  split_ifs at h
  cases h
  have hnone : entryOf (QtLogBook.tokenize (cstr data)) (bytes "id") = some none := by
    have hmissing : (LogbookItems.indexesOf ((QtLogBook.tokenize (cstr data)).headD []))[
        bytes "id"]? = none := by
      rw [← Option.isNone_iff_eq_none, ← Option.not_isSome,
        ← Std.TreeMap.contains_eq_isSome_getElem?]
      exact hid
    rw [entryOf, hmissing]
  rw [filled, hnone]
  rfl

/-- The dialog holds the id it was opened on until the first document arrives. -/
theorem id_of_run {opened dialog : NewRecordDialog θ} {events : List (Event θ)}
    (h : Run times opened events dialog) :
    dialog.id = if events.any (·.document.isSome) then bytes "-1" else opened.id := by
  refine System.Run.invariant (I := fun events dialog => dialog.id =
    if events.any (·.document.isSome) then bytes "-1" else opened.id) rfl ?_ h
  intro past dialog event next hid _ hguard hstep
  rw [List.any_append, List.any_cons, List.any_nil, Bool.or_false]
  cases event with
  | edit fields =>
    cases hstep
    simpa [Event.document] using hid
  | callLookUp =>
    cases hstep
    simpa [Event.document] using hid
  | callinfo data =>
    by_cases hne : data = []
    · subst hne
      obtain rfl : dialog = next := by simpa [system, setCSV] using hstep
      simpa [Event.document] using hid
    · rw [Event.document, if_neg hne] at hguard ⊢
      rw [setCSV_id times hne hguard hstep]
      simp
  | frequency data =>
    have hne : bytes "freq\n" ++ data ≠ [] := List.append_ne_nil_of_left_ne_nil (by decide) _
    rw [setCSV_id times hne hguard hstep]
    simp [Event.document]

/-! ## The record that is accepted -/

variable {δ : Type*} {backend : SQLite3 δ} {account : Account}

theorem parse_getCSV {dialog : NewRecordDialog θ}
    (hplain : ∀ field ∈ row times dialog, ∀ c ∈ field, Tokens.isPlain c) :
    LogBook.parse (getCSV times dialog) = [columns, row times dialog, []] := by
  have hrows : ∀ fields ∈ [columns, row times dialog], ∀ field ∈ fields, ∀ c ∈ field,
      Tokens.isPlain c := by
    simpa using ⟨columns_ok.2.2.1, hplain⟩
  have hstands : List.Forall₂ (List.Forall₂ Tokens.Stands) [columns, row times dialog]
      [columns, row times dialog] :=
    List.forall₂_same.mpr fun fields hfields => LogBook.stands_self (hrows fields hfields)
  rw [getCSV_eq]
  exact parse_finished (scan_tableText hstands (by simp [columns, row]) [])

/-- A success says that the one record of a body is in the table. -/
theorem added_row {tables : List Table} (hlaw : backend.LawfulRowids tables)
    (ht : LogBook.logbookTable ∈ tables) (hid : account.id < 2 ^ 63) {header fields : List Bytes}
    (hcolumns : ∀ name ∈ header, name ∈ LogBook.logbookTable.names)
    (hzeros : LogBook.NoZeros fields) (hne : fields ≠ []) (hlength : fields.length = header.length)
    {book : LogBook} (hready : LogBook.Ready book) {request : Request}
    (huri : request.uri = bytes "/logbook/add")
    (hbody : LogBook.parse request.content = [header, fields, []]) (db : δ)
    (hok : (LogBook.handleRequest backend account request book db {}).2.2.2.status = .ok) :
    let added := (LogBook.handleRequest backend account request book db {}).2.2.1
    backend.Frame LogBook.logbookTable db added ∧ ∃ rowid : ℤ,
      ((backend.tableRows added LogBook.logbookTable).map LogBook.columnsOf).Perm
        (LogBook.addedTable backend account header
          ((backend.tableRows db LogBook.logbookTable).map LogBook.columnsOf) (fields, rowid)) := by
  have hempty : fields.isEmpty = false := by simpa using hne
  have hready' : LogBook.Ready { book with record := ∅ } :=
    ⟨hready.getLogs, hready.addLog, hready.removeLog⟩
  rw [LogBook.handleRequest_add huri] at hok ⊢
  simp only [LogBook.addLog, hbody, List.headD_cons, List.tail_cons, LogBook.addRecords, hempty,
    hlength, ne_eq, not_true_eq_false, Bool.false_eq_true, if_false, List.isEmpty_nil,
    if_true] at hok ⊢
  cases hdone : (LogBook.addRecord backend account header fields { book with record := ∅ } db
      {}).1 with
  | false =>
    rw [hdone, if_neg Bool.false_ne_true] at hok
    exact absurd (hok.symm.trans (LogBook.addRecord_refused hdone)) (by simp)
  | true =>
    rw [if_pos rfl]
    exact (LogBook.addRecord_added hlaw ht hid hcolumns hzeros hlength hready'
      (LogBook.ownKeys_empty _) db {} hdone).2

/-- A dialog that is opened on a plain item with an id, and accepted with plain fields and a success
behind events whose documents name no id, rewrites the records of the user with this id if no
document has arrived in between; if one has, they stay as they were, and there is a new record with
the values of the dialog. -/
theorem accepted_record {tables : List Table} (hlaw : backend.LawfulRowids tables)
    (ht : LogBook.logbookTable ∈ tables) (hid : account.id < 2 ^ 63) {toTime : Bytes → ℕ}
    {text : ℕ → Bytes} (htext : ∀ i, ∀ c ∈ text i, Tokens.isPlain c) {n : ℕ}
    (hitem : text 0 = decimal n) {created opened dialog : NewRecordDialog θ}
    (hopened : setCSV times created (LogbookTreeWidget.itemToCSV toTime text) = some opened)
    {events : List (Event θ)} (hrun : Run times opened events dialog)
    (hplain : ∀ field ∈ row times dialog, ∀ c ∈ field, Tokens.isPlain c) {start : δ}
    {past : List (LogBook.Event δ)} {book : LogBook} {db : δ}
    (hstate : LogBook.Run backend start past (book, db)) {request : Request}
    (huri : request.uri = bytes "/logbook/add") (hcontent : request.content = getCSV times dialog)
    (hok : (LogBook.handleRequest backend account request book db {}).2.2.2.status = .ok) :
    let added := (LogBook.handleRequest backend account request book db {}).2.2.1
    let old := (backend.tableRows db LogBook.logbookTable).map LogBook.columnsOf
    backend.Frame LogBook.logbookTable db added ∧ ∃ rowid : ℤ,
      ((backend.tableRows added LogBook.logbookTable).map LogBook.columnsOf).Perm
        (if events.any (·.document.isSome) then
          old ++ [LogBook.newRecord backend account columns (row times dialog) rowid]
        else old.map fun record =>
          if LogBook.isOwn account record && LogBook.hasId backend (decimal n) record then
            LogBook.updatedRecord backend columns (row times dialog) record
          else record) := by
  have hopenedId : opened.id = decimal n := by
    have hread := hopened.symm.trans (setCSV_itemToCSV times htext created)
    rw [Option.some.inj hread, LogbookTreeWidget.sentId, hitem, if_neg (decimal_ne_nil n)]
  have hne : decimal n ≠ bytes "-1" := fun heq => by
    have hmem : ch '-' ∈ decimal n := heq ▸ (by decide)
    exact absurd (decimal_mem_range hmem) (by decide)
  have hdialog := id_of_run times hrun
  rw [hopenedId] at hdialog
  have hzeros : LogBook.NoZeros (row times dialog) := fun value hvalue hzero =>
    (Tokens.isPlain_iff.mp (hplain value hvalue 0 hzero)).1 rfl
  have hbody : LogBook.parse request.content = [columns, row times dialog, []] := by
    rw [hcontent]
    exact parse_getCSV times hplain
  have hcell : LogBook.cell columns (row times dialog) (bytes "id") = some dialog.id := rfl
  have hrow : row times dialog ≠ [] := List.cons_ne_nil _ _
  obtain ⟨hframe, rowid, hrows⟩ := added_row hlaw ht hid columns_ok.2.2.2 hzeros hrow rfl
    (LogBook.ready_of_run hstate) huri hbody db hok
  refine ⟨hframe, rowid, hrows.trans (List.Perm.of_eq ?_)⟩
  rw [LogBook.addedTable]
  dsimp only
  rw [hcell, Option.getD_some, hdialog]
  by_cases harrived : events.any (·.document.isSome) = true
  · rw [if_pos harrived, if_pos rfl, if_pos harrived]
  · rw [if_neg harrived, if_neg hne, if_neg harrived]

theorem getD_plain {texts : List Bytes}
    (h : ∀ text ∈ texts, ∀ c ∈ text, Tokens.isPlain c) (i : ℕ) :
    ∀ c ∈ texts.getD i [], Tokens.isPlain c := by
  rw [List.getD_eq_getElem?_getD]
  cases htext : texts[i]? with
  | none => simp
  | some text => exact h text (List.mem_of_getElem? htext)

/-- The item of the first record of the user. -/
def sampleText (column : ℕ) : Bytes :=
  (LogBook.recordTexts (LogBook.sampleRecords.headD [])).getD column []

/-- The call sign is looked up before the place is changed. -/
def sampleEvents : List (Event ℕ) :=
  [.callLookUp, .callinfo (bytes "qth;latitude\nBrno;49.2\n"),
    .edit { call := bytes "OK2JRQ", qth := bytes "Praha", start := 1 }]

def sampleSave (dialog : NewRecordDialog ℕ) : Request where
  uri := bytes "/logbook/add"
  content := getCSV sampleTimes dialog

theorem accepted_record_sampleEvents : ∃ opened dialog,
    setCSV sampleTimes { start := 0 } (LogbookTreeWidget.itemToCSV (fun _ => 0) sampleText) =
      some opened ∧ Run sampleTimes opened sampleEvents dialog ∧ ∃ rowid : ℤ,
    ((LogBook.sampleBackend.tableRows (LogBook.handleRequest LogBook.sampleBackend
        LogBook.sampleAccount (sampleSave dialog) {} LogBook.sampleDatabase {}).2.2.1
          LogBook.logbookTable).map LogBook.columnsOf).Perm
      ((LogBook.sampleBackend.tableRows LogBook.sampleDatabase LogBook.logbookTable).map
        LogBook.columnsOf ++ [LogBook.newRecord LogBook.sampleBackend LogBook.sampleAccount columns
          (row sampleTimes dialog) rowid]) := by
  have htexts : ((LogBook.recordTexts (LogBook.sampleRecords.headD [])).all
      fun text => text.all Tokens.isPlain) = true := by decide +kernel
  have hexec : ((setCSV sampleTimes { start := 0 } (LogbookTreeWidget.itemToCSV (fun _ => 0)
      sampleText)).any fun opened => (System.exec (system sampleTimes opened)
        (fun _ event => event.document.all namesNoId) opened sampleEvents).any fun dialog =>
          (row sampleTimes dialog).all (fun field => field.all Tokens.isPlain) &&
            (LogBook.handleRequest LogBook.sampleBackend LogBook.sampleAccount
              (sampleSave dialog) {} LogBook.sampleDatabase {}).2.2.2.status == .ok) = true := by
    decide +kernel
  have harrived : sampleEvents.any (·.document.isSome) = true := by decide +kernel
  obtain ⟨opened, hopened, hevents⟩ := (Option.any_eq_true _ _).mp hexec
  obtain ⟨dialog, hrun, hdialog⟩ := System.exists_run_of_exec hevents
  rw [Bool.and_eq_true, beq_iff_eq] at hdialog
  have hplain : ∀ field ∈ row sampleTimes dialog, ∀ c ∈ field, Tokens.isPlain c :=
    fun field hfield => List.all_eq_true.mp (List.all_eq_true.mp hdialog.1 field hfield)
  have htext : ∀ i, ∀ c ∈ sampleText i, Tokens.isPlain c := getD_plain fun text htext =>
    List.all_eq_true.mp (List.all_eq_true.mp htexts text htext)
  have hitem : sampleText 0 = decimal 1 := by decide +kernel
  have hstate : LogBook.Run LogBook.sampleBackend LogBook.sampleDatabase []
      ({}, LogBook.sampleDatabase) := System.Run.start
  have huri : (sampleSave dialog).uri = bytes "/logbook/add" := rfl
  have hcontent : (sampleSave dialog).content = getCSV sampleTimes dialog := rfl
  obtain ⟨-, rowid, hrows⟩ := accepted_record sampleTimes LogBook.sampleBackend_lawfulRowids
    (by decide) (by decide) htext hitem hopened hrun hplain hstate huri hcontent hdialog.2
  rw [if_pos harrived] at hrows
  exact ⟨opened, dialog, hopened, hrun, rowid, hrows⟩

end NewRecordDialog
end Hamlog.Ui
