import Hamlog.Server.Responders.LogBookAtomicity

/-! # A body of many records

One record map and one query object serve all records of a body, all requests
and all users. Whatever an earlier record or request left in them, the table
behind a body is the fold of what its records say, one after the other.
-/
namespace Hamlog.Server.LogBook
open Foundation Wire StorageBackend

variable {δ : Type*} (backend : SQLite3 δ)

/-- The values of a record, column by column. -/
def columnsOf (row : Row) : Row :=
  logbookTable.columns.map fun column => logbookTable.value row column.name

/-- What a row of the body has under a name of the header: the last one, if there are several. -/
def cell (columns row : List Bytes) (name : Bytes) : Option Bytes :=
  (columns.zip row).reverse.lookup name

/-- A record that is stored under the user with the values of a row. -/
def newRecord (account : Account) (columns row : List Bytes) (rowid : ℤ) : Row :=
  logbookTable.columns.map fun column =>
    if column.name = bytes "id" then some (decimalInt rowid)
    else if column.name = bytes "user_id" then some (decimal account.id)
    else (cell columns row column.name).map (backend.store column.type)

/-- A record whose other columns are set to the values of a row. -/
def updatedRecord (columns row : List Bytes) (old : Row) : Row :=
  logbookTable.columns.map fun column =>
    if column.name = bytes "id" ∨ column.name = bytes "user_id" then
      logbookTable.value old column.name
    else ((cell columns row column.name).map (backend.store column.type)).or
      (logbookTable.value old column.name)

/-- The table after a row of the body; the number is the identifier that a new record gets. -/
def addedTable (account : Account) (columns : List Bytes) (table : List Row)
    (row : List Bytes × ℤ) : List Row :=
  let id := (cell columns row.1 (bytes "id")).getD []
  if id = bytes "-1" then table ++ [newRecord backend account columns row.1 row.2]
  else table.map fun old =>
    if isOwn account old && hasId backend id old then updatedRecord backend columns row.1 old
    else old

/-- Every store operation of the request succeeds. -/
def AllStored (account : Account) (request : Request) (state : LogBook × δ) : Prop :=
  let data := parse request.content
  storedBefore backend account (data.headD []) data.tail { state.1 with record := ∅ } state.2 {} =
    none

instance (account : Account) (request : Request) (state : LogBook × δ) :
    Decidable (AllStored backend account request state) :=
  inferInstanceAs (Decidable (_ = _))

variable {backend}

/-! ## The record map of a row -/

theorem fillRecord_cell (record : StringMap) (columns row : List Bytes) (name : Bytes) :
    (fillRecord record columns row)[name]? = (cell columns row name).or record[name]? := by
  unfold fillRecord cell
  generalize columns.zip row = pairs
  induction pairs generalizing record with
  | nil => rfl
  | cons pair pairs ih =>
    obtain ⟨key, value⟩ := pair
    rw [List.foldl_cons, ih, List.reverse_cons, List.lookup_append, Option.or_assoc,
      StringMap.getElem?_insert, List.lookup_cons, List.lookup_nil]
    by_cases hname : key = name
    · simp [hname]
    · have hne : (name == key) = false := by simpa using Ne.symm hname
      simp [hname, hne]

theorem idOf_cell (columns row : List Bytes) :
    idOf columns row = (cell columns row (bytes "id")).getD [] := by
  rw [idOf, getD_withId, fillRecord_cell]
  simp

theorem mem_of_cell {columns row : List Bytes} {name value : Bytes}
    (h : cell columns row name = some value) : (name, value) ∈ columns.zip row := by
  obtain ⟨front, back, hsplit, -⟩ := List.lookup_eq_some_iff.mp h
  exact List.mem_reverse.mp (hsplit ▸ by simp)

theorem exists_cell {columns row : List Bytes} (hlength : row.length = columns.length)
    {name : Bytes} (h : name ∈ columns) : ∃ value, cell columns row name = some value := by
  have hmem : name ∈ ((columns.zip row).reverse).map (·.1) := by
    rw [List.map_reverse, List.mem_reverse, List.map_fst_zip hlength.ge]
    exact h
  rw [← Option.isSome_iff_exists, cell, List.lookup_isSome_iff]
  obtain ⟨pair, hpair, rfl⟩ := List.mem_map.mp hmem
  exact ⟨pair, hpair, by simp⟩

theorem withId_of_ne (record : StringMap) {name : Bytes} (h : name ≠ bytes "id") :
    (withId record)[name]? = record[name]? := by
  unfold withId
  split_ifs
  · rfl
  · rw [StringMap.getElem?_insert, if_neg (Ne.symm h)]

/-- Between the rows of a body, the record map holds no id and nothing but columns of the header
and the user. -/
def OwnKeys (columns : List Bytes) (record : StringMap) : Prop :=
  record[bytes "id"]? = none ∧ record.AllKeys fun name => name = bytes "user_id" ∨ name ∈ columns

/-- The values that are bound for a row: the one for the user, and those of the row. -/
def Bound (columns row : List Bytes) (user : Option Bytes) (sets : StringMap) : Prop :=
  ∀ name : Bytes, sets[name]? = if name = bytes "user_id" then user
    else if name = bytes "id" then none else cell columns row name

theorem ownKeys_empty (columns : List Bytes) : OwnKeys columns ∅ :=
  ⟨by simp, fun name value h => by simp at h⟩

/-- What is bound for a row leaves nothing else behind for the next one. -/
theorem Bound.ownKeys {columns row : List Bytes} {user : Option Bytes} {sets : StringMap}
    (h : Bound columns row user sets) : OwnKeys columns sets := by
  refine ⟨by rw [h, if_neg (by decide), if_pos rfl], fun name value hvalue => ?_⟩
  rw [h] at hvalue
  split_ifs at hvalue with huser
  · exact Or.inl huser
  · exact Or.inr (List.of_mem_zip (mem_of_cell hvalue)).1

section Rows
variable {columns row : List Bytes} {record : StringMap} (hkeys : OwnKeys columns record)
  (hlength : row.length = columns.length)
include hkeys hlength

/-- Nothing of an earlier row is left in the record map of a row, the user apart. -/
theorem OwnKeys.fillRecord {name : Bytes} (hname : name ≠ bytes "user_id") :
    (fillRecord record columns row)[name]? = cell columns row name := by
  rw [fillRecord_cell]
  cases hvalue : record[name]? with
  | none => rw [Option.or_none]
  | some value =>
    obtain ⟨own, hown⟩ := exists_cell hlength ((hkeys.2 name value hvalue).resolve_left hname)
    rw [hown, Option.some_or]

/-- The values that are bound for a new record. -/
theorem OwnKeys.inserted (user : Bytes) :
    Bound columns row (some user)
      (((withId (LogBook.fillRecord record columns row)).erase (bytes "id")).insert
        (bytes "user_id") user) := by
  intro name
  rw [StringMap.getElem?_insert, StringMap.getElem?_erase]
  simp only [eq_comm (b := name)]
  split_ifs with huser hid
  · rfl
  · rfl
  · rw [withId_of_ne _ hid, hkeys.fillRecord hlength huser]

/-- The values that are bound for a record that is updated. -/
theorem OwnKeys.updated :
    Bound columns row none
      (((withId (LogBook.fillRecord record columns row)).erase (bytes "user_id")).erase
        (bytes "id")) := by
  intro name
  rw [StringMap.getElem?_erase, StringMap.getElem?_erase]
  simp only [eq_comm (b := name)]
  split_ifs with hid huser huser
  · rfl
  · rfl
  · rfl
  · rw [withId_of_ne _ hid, hkeys.fillRecord hlength huser]

/-- The query of an update has the conditions of the record, whatever it had before. -/
structure RecordQuery (account : Account) (id : Bytes) (query : Insert) : Prop where
  table : query.table = bytes "logbook"
  own : OwnConditions query.wheres
  user : query.wheres[bytes "user_id"]? = some (decimal account.id)
  id : query.wheres[bytes "id"]? = some id

omit hkeys hlength in
theorem recordQuery {query : Insert} (htable : query.table = bytes "logbook")
    (hwheres : OwnConditions query.wheres) (account : Account) (id : Bytes) :
    RecordQuery account id ((query.where_ (bytes "user_id") (decimal account.id)).where_
      (bytes "id") id) := by
  have hne : bytes "id" ≠ bytes "user_id" := by decide
  refine ⟨htable, (hwheres.insert (by simp) _).insert (by simp) _, ?_, ?_⟩
  · rw [Insert.where_, Insert.where_, StringMap.getElem?_insert, if_neg hne,
      StringMap.getElem?_insert, if_pos rfl]
  · rw [Insert.where_, StringMap.getElem?_insert, if_pos rfl]

/-- What has happened when a row is accepted: an insert of its values if it is new, and an update
of the record with its id otherwise. -/
theorem addRecord_accepted (account : Account) {book : LogBook} (hready : Ready book)
    (hbook : book.record = record) (db : δ) (reply : Reply)
    (hdone : (addRecord backend account columns row book db reply).1 = true) :
    let added := addRecord backend account columns row book db reply
    let id := idOf columns row
    OwnKeys columns added.2.1.record ∧
      ((id = bytes "-1" ∧ ∃ sets, Bound columns row (some (decimal account.id)) sets ∧
          let inserted := backend.insert db book.addLogQuery sets
          inserted.1 = true ∧ added.2.2 = (inserted.2, reply.setContent
            (decimalInt (backend.lastInsertedID inserted.2) ++ bytes ";" ++ decimal account.id))) ∨
        id ≠ bytes "-1" ∧ ∃ sets query, Bound columns row none sets ∧
          RecordQuery account id query ∧
          let updated := backend.update db query sets
          updated.1 = true ∧ added.2.2 = (updated.2, reply.setContent
            (id ++ bytes ";" ++ decimal account.id))) := by
  subst hbook
  have hrow : (withId (fillRecord book.record columns row)).getD (bytes "id") [] =
      idOf columns row := by
    rw [getD_withId, fillRecord_cell, hkeys.1, Option.or_none, idOf_cell]
  revert hdone
  unfold addRecord
  simp only [hrow]
  by_cases hnew : idOf columns row = bytes "-1"
  · have hsets := hkeys.inserted hlength (decimal account.id)
    rw [if_pos hnew]
    split_ifs with hinserted
    · exact fun _ => ⟨hsets.ownKeys, Or.inl ⟨hnew, _, hsets, hinserted, rfl⟩⟩
    · exact fun hfalse => absurd hfalse (by simp)
  · have hsets := hkeys.updated hlength
    rw [if_neg hnew]
    split_ifs with hupdated
    · exact fun _ => ⟨hsets.ownKeys, Or.inr ⟨hnew, _, _, hsets,
        recordQuery hready.addLog.1 hready.addLog.2 account _, hupdated, rfl⟩⟩
    · exact fun hfalse => absurd hfalse (by simp)

end Rows

/-! ## The columns of a row -/

section Bound
variable {columns row : List Bytes} (hordinary : ∀ name ∈ columns, isOrdinary name = true)
  {user : Option Bytes} {sets : StringMap} (hsets : Bound columns row user sets)
include hordinary hsets

/-- Ordinary names in the header are ordinary names in the statement. -/
theorem Bound.ordinary : sets.AllKeys (isOrdinary · = true) := by
  intro name value hvalue
  rw [hsets] at hvalue
  split_ifs at hvalue with huser hid
  · rw [huser]
    decide
  · exact hordinary name (List.of_mem_zip (mem_of_cell hvalue)).1

theorem Bound.words : ∀ set ∈ sets.toList, isWord set.1 = true :=
  fun set hset => (isOrdinary_iff.mp ((hsets.ordinary hordinary).toList set hset)).1

/-- No statement of a row gives a value to the row identifier. -/
theorem Bound.automatic : SQLite3.AutomaticRowid logbookTable sets.toList :=
  SQLite3.forall_mem_toList (P := fun name _ => (∀ other ∈ SQLite3.rowidNames,
    sameName name other = false) ∧ ∀ column ∈ logbookTable.columns, column.primaryKey →
      sameName name column.name = false) |>.mpr fun name value hvalue => by
    have hname := isOrdinary_iff.mp (hsets.ordinary hordinary name value hvalue)
    refine ⟨hname.2.2.2, fun column hcolumn hkey => Bool.eq_false_iff.mpr fun hspelling => ?_⟩
    rw [(logbookTable_column.2 column hcolumn).1.mp hkey] at hspelling
    rw [hname.2.2.1 hspelling, hsets, if_neg (by decide), if_pos rfl] at hvalue
    exact absurd hvalue (by simp)

end Bound

theorem value_columnsOf (row : Row) {column : Column} (h : column ∈ logbookTable.columns) :
    logbookTable.value (columnsOf row) column.name = logbookTable.value row column.name :=
  Table.value_map logbookTable_column.1 _ h

theorem isOwn_columnsOf (account : Account) (row : Row) :
    isOwn account (columnsOf row) = isOwn account row := by
  obtain ⟨column, hcolumn, hname, -⟩ := userColumn
  rw [isOwn, isOwn, ← hname, value_columnsOf row hcolumn]

theorem hasId_columnsOf (id : Bytes) (row : Row) :
    hasId backend id (columnsOf row) = hasId backend id row := by
  have hcolumn : ⟨bytes "id", .integer, true⟩ ∈ logbookTable.columns := by decide
  rw [hasId, hasId, value_columnsOf row hcolumn]

theorem updatedRecord_columnsOf (columns row : List Bytes) (old : Row) :
    updatedRecord backend columns row (columnsOf old) = updatedRecord backend columns row old := by
  refine List.map_congr_left fun column hcolumn => ?_
  simp only [value_columnsOf old hcolumn]

/-! ## One row -/

/-- No value of a row holds a zero byte. -/
def NoZeros (row : List Bytes) : Prop := ∀ value ∈ row, 0 ∉ value

theorem cstr_cell {columns row : List Bytes} (hzeros : NoZeros row) {name value : Bytes}
    (h : cell columns row name = some value) : cstr value = value :=
  cstr_of_notMem (hzeros value (List.of_mem_zip (mem_of_cell h)).2)

section Record
variable {tables : List Table} (hlaw : backend.LawfulRowids tables) (ht : logbookTable ∈ tables)
  {account : Account} (hid : account.id < 2 ^ 63) {columns row : List Bytes}
  (hcolumns : ∀ name ∈ columns, name ∈ logbookTable.names) (hzeros : NoZeros row)
include hlaw ht hid hcolumns hzeros

omit hlaw ht hid hzeros in
/-- The names in the statement of a row are columns of the table. -/
theorem Bound.names {user : Option Bytes} {sets : StringMap} (h : Bound columns row user sets) :
    sets.AllKeys (· ∈ logbookTable.names) := by
  intro name value hvalue
  rw [h] at hvalue
  split_ifs at hvalue with huser hid
  · rw [huser]
    exact mem_names (by simp)
  · exact hcolumns name (List.of_mem_zip (mem_of_cell hvalue)).1

/-- An accepted insert adds the record of the row. -/
theorem insert_record {query : Insert} (hquery : query.table = bytes "logbook")
    {sets : StringMap} (hsets : Bound columns row (some (decimal account.id)) sets) (db : δ)
    (hdone : (backend.insert db query sets).1 = true) :
    let db' := (backend.insert db query sets).2
    backend.Frame logbookTable db db' ∧ ∃ rowid : ℤ,
      ((backend.tableRows db' logbookTable).map columnsOf).Perm
        ((backend.tableRows db logbookTable).map columnsOf ++
          [newRecord backend account columns row rowid]) := by
  have hnames := hsets.names hcolumns
  rcases hlaw.insert_cases ht db query hquery
      (hsets.words fun name h => isOrdinary_names (hcolumns name h)) with
    ⟨hfailed, -⟩ | ⟨-, hframe, before, new, after, hold, hrows, hnew, -⟩
  · exact absurd (hfailed.symm.trans hdone) Bool.false_ne_true
  · refine ⟨hframe, backend.lastInsertRowid (backend.insert db query sets).2, ?_⟩
    have hrecord : columnsOf new = newRecord backend account columns row
        (backend.lastInsertRowid (backend.insert db query sets).2) := by
      refine List.map_congr_left fun column hcolumn => ?_
      obtain ⟨hkey, htype⟩ := logbookTable_column.2 column hcolumn
      have hvalue := hnew column hcolumn
      by_cases hname : column.name = bytes "id"
      · rw [if_pos (hkey.mpr hname)] at hvalue
        rw [if_pos hname, hvalue]
      · rw [if_neg fun h => hname (hkey.mp h)] at hvalue
        rw [assigned_toList hnames hcolumn hvalue, hsets, if_neg hname, Option.or_none]
        split_ifs with huser
        · rw [Option.map_some, cstr_decimal, htype huser, hlaw.store_integer _ hid]
        · exact Option.map_congr fun value hcell => by rw [cstr_cell hzeros hcell]
    rw [hrows, hold, ← hrecord, ← List.map_singleton, ← List.map_append]
    exact (List.perm_middle.trans (List.perm_append_singleton new _).symm).map columnsOf

/-- An accepted update sets the other columns of the record of the user with the id. -/
theorem update_record {query : Insert} {id : Bytes} (hquery : RecordQuery account id query)
    {sets : StringMap} (hsets : Bound columns row none sets) (db : δ)
    (hdone : (backend.update db query sets).1 = true) :
    let db' := (backend.update db query sets).2
    backend.Frame logbookTable db db' ∧
      ((backend.tableRows db' logbookTable).map columnsOf).Perm
        (((backend.tableRows db logbookTable).map columnsOf).map fun old =>
          if isOwn account old && hasId backend id old then updatedRecord backend columns row old
          else old) := by
  have hnames := hsets.names hcolumns
  have hordinary : ∀ name ∈ columns, isOrdinary name = true :=
    fun name h => isOrdinary_names (hcolumns name h)
  rcases hlaw.update_cases ht db query hquery.table (hsets.words hordinary)
      (ownConditions_filters hquery.own hquery.user) with
    ⟨hfailed, -⟩ | ⟨-, hframe, f, hrows, hassigned⟩
  · exact absurd (hfailed.symm.trans hdone) Bool.false_ne_true
  · refine ⟨hframe, (hrows.map columnsOf).trans (List.Perm.of_eq ?_)⟩
    rw [List.map_map, List.map_map]
    refine List.map_congr_left fun old hold => ?_
    have hrow : columnsOf (f old) = updatedRecord backend columns row old := by
      refine List.map_congr_left fun column hcolumn => ?_
      obtain ⟨hkey, -⟩ := logbookTable_column.2 column hcolumn
      have hvalue := hassigned old hold column hcolumn
      by_cases hname : column.name = bytes "id"
      · rw [if_pos (hkey.mpr hname)] at hvalue
        rw [if_pos (Or.inl hname), hvalue.kept (hsets.automatic hordinary).not_namesRowid]
      · rw [if_neg fun h => hname (hkey.mp h)] at hvalue
        rw [assigned_toList hnames hcolumn hvalue, hsets]
        by_cases huser' : column.name = bytes "user_id"
        · rw [if_pos huser', if_pos (Or.inr huser'), Option.map_none, Option.none_or]
        · rw [if_neg huser', if_neg hname, if_neg (by simp [hname, huser'])]
          congr 1
          exact Option.map_congr fun value hcell => by rw [cstr_cell hzeros hcell]
    simp only [Function.comp_apply, isOwn_columnsOf, hasId_columnsOf, updatedRecord_columnsOf,
      satisfies_own hlaw.toLawful hid hquery.own hquery.user hquery.id, ← hrow]
    split_ifs <;> rfl

/-- One row of the body, with a record map and a query object that other rows have left. -/
theorem addRecord_added (hlength : row.length = columns.length) {book : LogBook}
    (hready : Ready book) (hkeys : OwnKeys columns book.record) (db : δ) (reply : Reply)
    (hdone : (addRecord backend account columns row book db reply).1 = true) :
    let added := addRecord backend account columns row book db reply
    OwnKeys columns added.2.1.record ∧ backend.Frame logbookTable db added.2.2.1 ∧ ∃ rowid : ℤ,
      ((backend.tableRows added.2.2.1 logbookTable).map columnsOf).Perm
        (addedTable backend account columns ((backend.tableRows db logbookTable).map columnsOf)
          (row, rowid)) := by
  obtain ⟨hkeys', hstored⟩ := addRecord_accepted hkeys hlength account hready rfl db reply hdone
  refine ⟨hkeys', ?_⟩
  simp only [addedTable, ← idOf_cell]
  rcases hstored with ⟨hnew, sets, hsets, hinserted, hadded⟩ |
    ⟨hnew, sets, query, hsets, hquery, hupdated, hadded⟩
  · rw [hadded]
    simp only [if_pos hnew]
    exact insert_record hlaw ht hid hcolumns hzeros hready.addLog.1 hsets db hinserted
  · obtain ⟨hframe, hrows⟩ := update_record hlaw ht hid hcolumns hzeros hquery hsets db hupdated
    rw [hadded]
    simp only [if_neg hnew]
    exact ⟨hframe, 0, hrows⟩

end Record

/-! ## A body -/

theorem addedTable_perm (account : Account) (columns : List Bytes) {table table' : List Row}
    (h : table.Perm table') (row : List Bytes × ℤ) :
    (addedTable backend account columns table row).Perm
      (addedTable backend account columns table' row) := by
  unfold addedTable
  dsimp only
  split_ifs
  · exact h.append_right _
  · exact h.map _

theorem foldl_addedTable_perm (account : Account) (columns : List Bytes)
    (rows : List (List Bytes × ℤ)) {table table' : List Row} (h : table.Perm table') :
    (rows.foldl (addedTable backend account columns) table).Perm
      (rows.foldl (addedTable backend account columns) table') := by
  induction rows generalizing table table' with
  | nil => exact h
  | cons row rows ih => exact ih (addedTable_perm account columns h row)

/-- The values that `parse` returns hold no zero byte. -/
theorem noZeros_parse {content : Bytes} {row : List Bytes} (h : row ∈ parse content) :
    NoZeros row := by
  intro value hvalue hzero
  have hkept : 0 ∈ (Tokens.scan false {} content).kept :=
    (Tokens.sublist_kept h).subset (List.mem_flatten.mpr ⟨value, hvalue, hzero⟩)
  exact Tokens.zero_notMem_kept false (by simp [Tokens.kept]) hkept

section Body
variable {tables : List Table} (hlaw : backend.LawfulRowids tables) (ht : logbookTable ∈ tables)
  {account : Account} (hid : account.id < 2 ^ 63)
include hlaw ht hid

/-- The loop over the rows folds what each of them says over the table. -/
theorem addRecords_fold {columns : List Bytes}
    (hcolumns : ∀ name ∈ columns, name ∈ logbookTable.names) (rows : List (List Bytes))
    (hzeros : ∀ row ∈ rows, NoZeros row)
    (hlength : ∀ row ∈ rows, row ≠ [] → row.length = columns.length) {book : LogBook}
    (hready : Ready book) (hkeys : OwnKeys columns book.record) (db : δ) (reply : Reply)
    (hstored : storedBefore backend account columns rows book db reply = none) :
    let added := addRecords backend account columns rows book db reply
    let stored := rows.filter (· ≠ [])
    backend.Frame logbookTable db added.2.1 ∧
      ∃ rowids : List ℤ, rowids.length = stored.length ∧
        ((backend.tableRows added.2.1 logbookTable).map columnsOf).Perm
          ((stored.zip rowids).foldl (addedTable backend account columns)
            ((backend.tableRows db logbookTable).map columnsOf)) := by
  induction rows generalizing book db reply with
  | nil => exact ⟨fun _ _ => rfl, [], rfl, List.Perm.refl _⟩
  | cons row rows ih =>
    have hzeros' : ∀ r ∈ rows, NoZeros r := fun r hr => hzeros r (List.mem_cons_of_mem _ hr)
    have hlength' : ∀ r ∈ rows, r ≠ [] → r.length = columns.length :=
      fun r hr => hlength r (List.mem_cons_of_mem _ hr)
    have hwidth := hlength row List.mem_cons_self
    revert hstored
    simp only [addRecords, storedBefore]
    by_cases hempty : row = []
    · simp only [hempty, List.isEmpty_nil, if_true]
      exact ih hzeros' hlength' hready hkeys db reply
    · have hisEmpty : row.isEmpty = false := by simpa using hempty
      simp only [hisEmpty, Bool.false_eq_true, if_false, ne_eq, (hwidth hempty), not_true_eq_false]
      split_ifs with hdone
      · intro hstored
        obtain ⟨hkeys', hframe, rowid, hrow⟩ := addRecord_added hlaw ht hid hcolumns
          (hzeros row List.mem_cons_self) (hwidth hempty) hready hkeys db reply hdone
        obtain ⟨hframe', rowids, hcount, hrows⟩ := ih hzeros' hlength'
          (addRecord_ready backend account columns row db reply hready) hkeys' _ _
          (Option.map_eq_none_iff.mp hstored)
        refine ⟨fun name hname => (hframe' name hname).trans (hframe name hname),
          rowid :: rowids, ?_, ?_⟩
        · simpa [hempty] using hcount
        · rw [List.filter_cons_of_pos (by simpa using hempty), List.zip_cons_cons, List.foldl_cons]
          exact hrows.trans (foldl_addedTable_perm account columns _ hrow)
      · exact fun hsome => absurd hsome (by simp)

/-- In every reachable state, a body all of whose records are stored leaves the fold of its rows
over the table, in which each new record has the identifier that the store gave it. -/
theorem add_fold {start : δ} {past : List (Event δ)} {state : LogBook × δ}
    (h : Run backend start past state) {request : Request}
    (huri : request.uri = bytes "/logbook/add")
    (hcolumns : ∀ name ∈ (parse request.content).headD [], name ∈ logbookTable.names)
    (hlength : ∀ row ∈ (parse request.content).tail, row ≠ [] →
      row.length = ((parse request.content).headD []).length)
    (hstored : AllStored backend account request state) :
    let added := handleRequest backend account request state.1 state.2 {}
    let rows := (parse request.content).tail.filter (· ≠ [])
    backend.Frame logbookTable state.2 added.2.2.1 ∧
      ∃ rowids : List ℤ, rowids.length = rows.length ∧
        ((backend.tableRows added.2.2.1 logbookTable).map columnsOf).Perm
          ((rows.zip rowids).foldl
            (addedTable backend account ((parse request.content).headD []))
            ((backend.tableRows state.2 logbookTable).map columnsOf)) := by
  have hready : Ready { state.1 with record := ∅ } :=
    ⟨(ready_of_run h).getLogs, (ready_of_run h).addLog, (ready_of_run h).removeLog⟩
  rw [handleRequest_add huri]
  exact addRecords_fold hlaw ht hid hcolumns _ (fun row hrow =>
    noZeros_parse (List.mem_of_mem_tail hrow)) hlength hready (ownKeys_empty _) state.2 {} hstored

end Body

theorem sampleBackend_lawfulRowids : sampleBackend.LawfulRowids [Login.usersTable, logbookTable] :=
  SampleEngine.backend_lawfulRowids (by decide) (by decide +kernel)

/-- A changed record, a new one, and one that another user owns. -/
def sampleBatch : Request where
  uri := bytes "/logbook/add"
  content := bytes "id;callsign;qth\n3;OK1HRA;Tabor\n-1;OK1DST;Praha\n2;OK1KVK;Plzen\n"

theorem add_fold_sampleBatch : ∃ state, Run sampleBackend sampleDatabase sampleEvents state ∧
    ∃ rowids : List ℤ, rowids.length = 3 ∧
      ((sampleBackend.tableRows (handleRequest sampleBackend sampleAccount sampleBatch state.1
        state.2 {}).2.2.1 logbookTable).map columnsOf).Perm
        (((parse sampleBatch.content).tail.filter (· ≠ [])).zip rowids |>.foldl
          (addedTable sampleBackend sampleAccount ((parse sampleBatch.content).headD []))
          ((sampleBackend.tableRows state.2 logbookTable).map columnsOf)) := by
  have hexec : (System.exec (system sampleBackend sampleDatabase) (fun _ _ => true)
      ({}, sampleDatabase) sampleEvents).any (fun state =>
        decide (AllStored sampleBackend sampleAccount sampleBatch state)) = true := by
    decide +kernel
  obtain ⟨state, hrun, hstate⟩ := System.exists_run_of_exec hexec
  have hid : sampleAccount.id < 2 ^ 63 := by decide
  have hfold := add_fold sampleBackend_lawfulRowids (by decide) hid hrun rfl (by decide +kernel)
    (by decide +kernel) (of_decide_eq_true hstate)
  exact ⟨state, hrun, hfold.2⟩

end Hamlog.Server.LogBook
