import Hamlog.Server.Responders.LogBookBatch

/-! # What a success says about a record

The reply to a body of one record names the id that the client sent, or the one
of the last insert. `SQLite3::update` is a success whether or not a record of
the user has the id, so the reply may name a record that is not there.
-/
namespace Hamlog.Server.LogBook
open Foundation Wire StorageBackend

variable {δ : Type*} (backend : SQLite3 δ)

/-- The values that are sent of a record, with the names of their columns. -/
def sentValues (columns row : List Bytes) : List (Bytes × Bytes) :=
  (columns.zip row).filter fun sent => sent.1 ≠ bytes "id" ∧ sent.1 ≠ bytes "user_id"

/-- A record holds a value in the column of a name. -/
def Holds (record : Row) (sent : Bytes × Bytes) : Prop :=
  ∃ column ∈ logbookTable.columns, sameName sent.1 column.name = true ∧
    logbookTable.value record column.name = some (backend.store column.type sent.2)

/-- A record of the user with an id holds all values that are sent. -/
def Stored (account : Account) (id : Bytes) (columns row : List Bytes) (table : List Row) : Prop :=
  ∃ record ∈ table, isOwn account record = true ∧ hasId backend id record = true ∧
    ∀ sent ∈ sentValues columns row, Holds backend record sent

/-- Values that are sent for one column are stored alike. -/
def Consistent (columns row : List Bytes) : Prop :=
  ∀ sent ∈ sentValues columns row, ∀ other ∈ sentValues columns row,
    ∀ column ∈ logbookTable.columns, sameName sent.1 column.name = true →
      sameName other.1 column.name = true →
      backend.store column.type sent.2 = backend.store column.type other.2

/-- What can be stored for the user under the id of the record: the names that are sent are those of
columns, values for one column are stored alike, what is sent under another spelling of `user_id` is
the user, and what is sent under another one of `id` is the id. -/
structure Storable (account : Account) (columns row : List Bytes) : Prop where
  names : ∀ sent ∈ sentValues columns row,
    ∃ column ∈ logbookTable.columns, sameName sent.1 column.name = true
  consistent : Consistent backend columns row
  user : ∀ sent ∈ sentValues columns row, sameName sent.1 (bytes "user_id") = true →
    backend.store .integer sent.2 = decimal account.id
  id : isNew columns row = false → ∀ sent ∈ sentValues columns row,
    sameName sent.1 (bytes "id") = true →
    backend.equals .integer (some (backend.store .integer sent.2)) (cstr (idOf columns row)) = true

variable {backend}

theorem column_eq {a b : Column} (ha : a ∈ logbookTable.columns) (hb : b ∈ logbookTable.columns)
    {name : Bytes} (hname : sameName name a.name = true) (hname' : sameName name b.name = true) :
    a = b :=
  List.inj_on_of_nodup_map logbookTable_column.1 ha hb
    (eq_of_sameName (List.mem_map_of_mem ha) (List.mem_map_of_mem hb)
      (sameName_trans (sameName_symm hname) hname'))

theorem Holds.value {record : Row} {sent : Bytes × Bytes} (h : Holds backend record sent)
    {column : Column} (hcolumn : column ∈ logbookTable.columns)
    (hname : sameName sent.1 column.name = true) :
    logbookTable.value record column.name = some (backend.store column.type sent.2) := by
  obtain ⟨held, hheld, hname', hvalue⟩ := h
  rwa [column_eq hheld hcolumn hname' hname] at hvalue

theorem storable_of_stored {account : Account} {id : Bytes} {columns row : List Bytes}
    {table : List Row} (h : Stored backend account id columns row table)
    (hid : isNew columns row = false → id = idOf columns row) :
    Storable backend account columns row := by
  obtain ⟨record, -, hown, hhas, hholds⟩ := h
  refine ⟨fun sent hsent => ?_, fun sent hsent other hother column hcolumn hname hname' => ?_,
    fun sent hsent hname => ?_, fun hnew sent hsent hname => ?_⟩
  · obtain ⟨column, hcolumn, hname, -⟩ := hholds sent hsent
    exact ⟨column, hcolumn, hname⟩
  · exact Option.some.inj (((hholds sent hsent).value hcolumn hname).symm.trans
      ((hholds other hother).value hcolumn hname'))
  · have hcolumn : ⟨bytes "user_id", .integer, false⟩ ∈ logbookTable.columns := by decide
    have hvalue := (hholds sent hsent).value hcolumn hname
    exact Option.some.inj (hvalue.symm.trans (beq_iff_eq.mp hown))
  · have hcolumn : ⟨bytes "id", .integer, true⟩ ∈ logbookTable.columns := by decide
    have hvalue := (hholds sent hsent).value hcolumn hname
    rw [hasId, hvalue, hid hnew] at hhas
    exact hhas

/-! ## The bound values -/

section Bound
variable {columns row : List Bytes} {user : Option Bytes} {sets : StringMap}
  (hsets : Bound columns row user sets)
include hsets

theorem Bound.sent {name value : Bytes} (hvalue : sets[name]? = some value)
    (hname : name ≠ bytes "user_id") : (name, value) ∈ sentValues columns row := by
  rw [hsets, if_neg hname] at hvalue
  split_ifs at hvalue with hid
  exact List.mem_filter.mpr ⟨mem_of_cell hvalue, by simp [hid, hname]⟩

theorem Bound.exists (hlength : row.length = columns.length) {sent : Bytes × Bytes}
    (hsent : sent ∈ sentValues columns row) : ∃ value, sets[sent.1]? = some value := by
  obtain ⟨hmem, hname⟩ := List.mem_filter.mp hsent
  simp only [decide_eq_true_eq] at hname
  obtain ⟨value, hvalue⟩ := exists_cell hlength (List.of_mem_zip hmem).1
  exact ⟨value, by rw [hsets, if_neg hname.2, if_neg hname.1, hvalue]⟩

variable {account : Account} (h : Storable backend account columns row)
include h

theorem Bound.columnNames {set : Bytes × Bytes} (hset : set ∈ sets.toList) :
    ∃ column ∈ logbookTable.columns, sameName set.1 column.name = true := by
  by_cases hname : set.1 = bytes "user_id"
  · exact ⟨⟨bytes "user_id", .integer, false⟩, by decide, by rw [hname]; decide⟩
  · exact h.names _ (hsets.sent (Std.TreeMap.mem_toList_iff_getElem?_eq_some.mp hset) hname)

theorem Bound.columnWords : ∀ set ∈ sets.toList, isWord set.1 = true := by
  intro set hset
  obtain ⟨column, hcolumn, hname⟩ := hsets.columnNames h hset
  have hword := isOrdinary_iff.mp (isOrdinary_names (List.mem_map_of_mem hcolumn))
  exact isWord_of_sameName hname hword.1

variable (hzeros : NoZeros row)
include hzeros

/-- Of the values that are sent for a column, the one that is assigned is stored like all others. -/
theorem Bound.assigned_sent {sent set : Bytes × Bytes} (hsent : sent ∈ sentValues columns row)
    (hset : set ∈ sets.toList) (huser : set.1 ≠ bytes "user_id") {column : Column}
    (hcolumn : column ∈ logbookTable.columns) (hname : sameName sent.1 column.name = true)
    (hname' : sameName set.1 column.name = true) :
    backend.store column.type (cstr set.2) = backend.store column.type sent.2 := by
  have hsent' := hsets.sent (Std.TreeMap.mem_toList_iff_getElem?_eq_some.mp hset) huser
  have hzero := hzeros set.2 (List.of_mem_zip (List.mem_of_mem_filter hsent')).2
  rw [cstr_of_notMem hzero]
  exact h.consistent _ hsent' _ hsent column hcolumn hname' hname

omit hzeros in
theorem Bound.names_id {set : Bytes × Bytes} (hset : set ∈ sets.toList)
    (hrowid : SQLite3.NamesRowid logbookTable set.1) :
    sameName set.1 (bytes "id") = true ∧ set.1 ≠ bytes "user_id" := by
  have hid : sameName set.1 (bytes "id") = true := by
    rcases hrowid with ⟨other, hother, hsame⟩ | ⟨key, hkey, hprimary, hsame⟩
    · obtain ⟨column, hcolumn, hname⟩ := hsets.columnNames h hset
      have hcolumn' := (isOrdinary_iff.mp (isOrdinary_names (List.mem_map_of_mem hcolumn))).2.2.2
      exact absurd ((sameName_trans (sameName_symm hname) hsame).symm.trans (hcolumn' other hother))
        (by simp)
    · rwa [(logbookTable_column.2 key hkey).1.mp hprimary] at hsame
  refine ⟨hid, fun heq => ?_⟩
  rw [heq] at hid
  exact absurd hid (by decide)

variable {record : Row} {old : Column → Option Bytes}
  (hassigned : ∀ column ∈ logbookTable.columns,
    if column.primaryKey then backend.AssignedRowid logbookTable sets.toList (old column)
      (logbookTable.value record column.name)
    else backend.Assigned column sets.toList (old column) (logbookTable.value record column.name))
include hassigned

theorem Bound.holds {tables : List Table} (hlaw : backend.Lawful tables)
    (hid : account.id < 2 ^ 63) (hlength : row.length = columns.length)
    (huser : ∀ value, user = some value → value = decimal account.id) :
    ∀ sent ∈ sentValues columns row, Holds backend record sent := by
  intro sent hsent
  obtain ⟨value, hget⟩ := hsets.exists hlength hsent
  have hmem := Std.TreeMap.mem_toList_iff_getElem?_eq_some.mpr hget
  obtain ⟨column, hcolumn, hname⟩ := h.names sent hsent
  refine ⟨column, hcolumn, hname, ?_⟩
  have hvalue := hassigned column hcolumn
  cases hkey : column.primaryKey with
  | true =>
    rw [if_pos hkey] at hvalue
    rcases hvalue with ⟨set, hset, hrowid, hvalue⟩ | ⟨hnone, -⟩
    · obtain ⟨hname', hother⟩ := hsets.names_id h hset hrowid
      have hcolumn' : column = ⟨bytes "id", .integer, true⟩ :=
        column_eq hcolumn (by decide) hname
          (by rwa [(logbookTable_column.2 column hcolumn).1.mp hkey] at hname)
      rw [hvalue, ← hsets.assigned_sent h hzeros hsent hset hother hcolumn hname
        (by rwa [hcolumn']), hcolumn']
    · exact absurd (Or.inr ⟨column, hcolumn, hkey, hname⟩) (hnone (sent.1, value) hmem)
  | false =>
    rw [if_neg (by simp [hkey])] at hvalue
    rcases hvalue with ⟨set, hset, hname', hvalue⟩ | ⟨hnone, -⟩
    · by_cases hother : set.1 = bytes "user_id"
      · have hget' := Std.TreeMap.mem_toList_iff_getElem?_eq_some.mp hset
        rw [hother, hsets, if_pos rfl] at hget'
        rw [hother] at hname'
        have hcolumn' : column = ⟨bytes "user_id", .integer, false⟩ :=
          column_eq hcolumn (by decide) hname' (by decide)
        rw [hcolumn'] at hname ⊢
        rw [hcolumn'] at hvalue
        rw [hvalue, huser _ hget', cstr_decimal, hlaw.store_integer _ hid, h.user sent hsent hname]
      · rw [hvalue, hsets.assigned_sent h hzeros hsent hset hother hcolumn hname hname']
    · exact absurd (hname.symm.trans (hnone (sent.1, value) hmem)) (by simp)

theorem Bound.owns {tables : List Table} (hlaw : backend.Lawful tables) (hid : account.id < 2 ^ 63)
    (huser : user = some (decimal account.id) ∨ user = none ∧
      old ⟨bytes "user_id", .integer, false⟩ = some (decimal account.id)) :
    isOwn account record = true := by
  have hget : sets[bytes "user_id"]? = user := by rw [hsets, if_pos rfl]
  have hvalue := hassigned ⟨bytes "user_id", .integer, false⟩ (by decide)
  rw [if_neg (by simp)] at hvalue
  refine beq_iff_eq.mpr ?_
  rcases hvalue with ⟨set, hset, hname, hvalue⟩ | ⟨hnone, hvalue⟩
  · have hget' := Std.TreeMap.mem_toList_iff_getElem?_eq_some.mp hset
    by_cases hother : set.1 = bytes "user_id"
    · rw [hother, hget] at hget'
      rcases huser with huser | ⟨huser, -⟩
      · have hbound : set.2 = decimal account.id := Option.some.inj (hget'.symm.trans huser)
        rw [hvalue, hbound, cstr_decimal, hlaw.store_integer _ hid]
      · exact absurd (huser.symm.trans hget') (by simp)
    · have hsent := hsets.sent hget' hother
      have hzero := hzeros set.2 (List.of_mem_zip (List.mem_of_mem_filter hsent)).2
      rw [hvalue, cstr_of_notMem hzero]
      exact congrArg some (h.user _ hsent hname)
  · rcases huser with huser | ⟨-, hold⟩
    · have hspelling := hnone (bytes "user_id", decimal account.id)
        (Std.TreeMap.mem_toList_iff_getElem?_eq_some.mpr (hget.trans huser))
      have hself : sameName (bytes "user_id") (bytes "user_id") = true := by decide
      exact absurd (hself.symm.trans hspelling) (by simp)
    · exact hvalue.trans hold

theorem Bound.hasId (hnew : isNew columns row = false)
    (hold : backend.equals .integer (old ⟨bytes "id", .integer, true⟩)
      (cstr (idOf columns row)) = true) :
    LogBook.hasId backend (idOf columns row) record = true := by
  have hvalue := hassigned ⟨bytes "id", .integer, true⟩ (by decide)
  rw [if_pos rfl] at hvalue
  rw [LogBook.hasId]
  rcases hvalue with ⟨set, hset, hrowid, hvalue⟩ | ⟨-, hvalue⟩
  · obtain ⟨hname, hother⟩ := hsets.names_id h hset hrowid
    have hsent := hsets.sent (Std.TreeMap.mem_toList_iff_getElem?_eq_some.mp hset) hother
    have hzero := hzeros set.2 (List.of_mem_zip (List.mem_of_mem_filter hsent)).2
    rw [hvalue, cstr_of_notMem hzero]
    exact h.id hnew _ hsent hname
  · rw [hvalue]
    exact hold

end Bound

/-! ## One record -/

section Record
variable {tables : List Table} (hlaw : backend.LawfulRowids tables) (ht : logbookTable ∈ tables)
  {account : Account} (hid : account.id < 2 ^ 63) {columns row : List Bytes}
  (hzeros : NoZeros row) (hlength : row.length = columns.length)
include hlaw ht hid hzeros hlength

theorem insert_stored {query : Insert} (hquery : query.table = bytes "logbook")
    {sets : StringMap} (hsets : Bound columns row (some (decimal account.id)) sets) (db : δ)
    (hdone : (backend.insert db query sets).1 = true)
    (hstorable : Storable backend account columns row) :
    let db' := (backend.insert db query sets).2
    Stored backend account (decimalInt (backend.lastInsertedID db')) columns row
      (backend.tableRows db' logbookTable) := by
  have hwords := hsets.columnWords hstorable
  have hrowid := hlaw.insert_rowid ht db hwords
  rw [show logbookTable.name = query.table from hquery.symm] at hrowid
  rcases hlaw.insert_cases ht db query hquery hwords with
    ⟨hfailed, -⟩ | ⟨-, -, before, new, after, -, hrows, hnew, -⟩
  · exact absurd (hfailed.symm.trans hdone) Bool.false_ne_true
  · have hmem : new ∈ backend.tableRows (backend.insert db query sets).2 logbookTable := by
      rw [hrows]
      simp
    have hassigned (column : Column) (hcolumn : column ∈ logbookTable.columns) :
        if column.primaryKey then backend.AssignedRowid logbookTable sets.toList
          (if column.primaryKey then logbookTable.value new column.name else none)
          (logbookTable.value new column.name)
        else backend.Assigned column sets.toList
          (if column.primaryKey then logbookTable.value new column.name else none)
          (logbookTable.value new column.name) := by
      have hvalue := hnew column hcolumn
      split_ifs at hvalue ⊢
      · rcases hrowid hdone with hnone | ⟨set, hset, hname, hset'⟩
        · exact Or.inr ⟨hnone, rfl⟩
        · exact Or.inl ⟨set, hset, hname, hvalue.trans (congrArg some hset')⟩
      · exact hvalue
    refine ⟨new, hmem, hsets.owns hstorable hzeros hassigned hlaw.toLawful hid (Or.inl rfl), ?_,
      hsets.holds hstorable hzeros hassigned hlaw.toLawful hid hlength
        fun value hvalue => (Option.some.inj hvalue).symm⟩
    have hvalue := hnew ⟨bytes "id", .integer, true⟩ (by decide)
    rw [hasId, cstr_decimalInt]
    rw [if_pos rfl] at hvalue
    rw [hvalue]
    exact hlaw.equals_rowid _

theorem update_stored {query : Insert} (hquery : RecordQuery account (idOf columns row) query)
    {sets : StringMap} (hsets : Bound columns row none sets) (db : δ)
    (hdone : (backend.update db query sets).1 = true) (hnew : isNew columns row = false)
    (hstorable : Storable backend account columns row) {old : Row}
    (hold : old ∈ backend.tableRows db logbookTable)
    (hselected : (isOwn account old && hasId backend (idOf columns row) old) = true) :
    Stored backend account (idOf columns row) columns row
      (backend.tableRows (backend.update db query sets).2 logbookTable) := by
  have hmatch := (satisfies_own hlaw.toLawful hid hquery.own hquery.user hquery.id old).trans
    hselected
  rw [Bool.and_eq_true] at hselected
  rcases hlaw.update_cases ht db query hquery.table (hsets.columnWords hstorable)
      (ownConditions_filters hquery.own hquery.user) with
    ⟨hfailed, -⟩ | ⟨-, -, f, hrows, hassigned⟩
  · exact absurd (hfailed.symm.trans hdone) Bool.false_ne_true
  · have hmem : f old ∈ backend.tableRows (backend.update db query sets).2 logbookTable := by
      exact hrows.mem_iff.mpr (List.mem_map.mpr ⟨old, hold, if_pos hmatch⟩)
    have hvalues := hassigned old hold
    exact ⟨f old, hmem, hsets.owns hstorable hzeros hvalues hlaw.toLawful hid
        (Or.inr ⟨rfl, beq_iff_eq.mp hselected.1⟩),
      hsets.hasId hstorable hzeros hvalues hnew hselected.2,
      hsets.holds hstorable hzeros hvalues hlaw.toLawful hid hlength
        fun value hvalue => by cases hvalue⟩

omit ht hzeros hlength in
theorem touches_eq (table : List Row) :
    touches backend account columns row table = (isNew columns row ||
      table.any fun old => isOwn account old && hasId backend (idOf columns row) old) := by
  have hquery : RecordQuery account (idOf columns row)
      ⟨bytes "logbook", recordConditions account (idOf columns row)⟩ :=
    recordQuery rfl ready_new.addLog.2 account _
  rw [touches, funext (satisfies_own hlaw.toLawful hid hquery.own hquery.user hquery.id)]

/-- A record that is accepted is stored under the id of its reply if and only if it can be stored
under it, and it is new or one of the user has its id. -/
theorem addRecord_stored {book : LogBook} (hready : Ready book)
    (hkeys : OwnKeys columns book.record) (db : δ) (reply : Reply)
    (hdone : (addRecord backend account columns row book db reply).1 = true) {id : Bytes}
    (hcontent : (addRecord backend account columns row book db reply).2.2.2.content =
      id ++ bytes ";" ++ decimal account.id) :
    Stored backend account id columns row (backend.tableRows
        (addRecord backend account columns row book db reply).2.2.1 logbookTable) ↔
      Storable backend account columns row ∧
        touches backend account columns row (backend.tableRows db logbookTable) = true := by
  have hsame {text : Bytes} (h : text ++ bytes ";" ++ decimal account.id =
      id ++ bytes ";" ++ decimal account.id) : text = id :=
    List.append_cancel_right (List.append_cancel_right h)
  rw [touches_eq hlaw hid]
  obtain ⟨-, ⟨hnew, sets, hsets, hinserted, hadded⟩ |
    ⟨hnew, sets, query, hsets, hquery, hupdated, hadded⟩⟩ :=
    addRecord_accepted hkeys hlength account hready rfl db reply hdone
  · rw [hadded] at hcontent ⊢
    rw [← hsame hcontent]
    have hisNew : isNew columns row = true := beq_iff_eq.mpr hnew
    refine ⟨fun hstored => ⟨storable_of_stored hstored fun hold => ?_, ?_⟩, fun hboth =>
      insert_stored hlaw ht hid hzeros hlength hready.addLog.1 hsets db hinserted hboth.1⟩
    · exact absurd (hisNew.symm.trans hold) (by simp)
    · rw [hisNew, Bool.true_or]
  · have hisNew : isNew columns row = false := beq_false_of_ne hnew
    rw [hadded] at hcontent ⊢
    rw [← hsame hcontent, hisNew, Bool.false_or]
    refine ⟨fun hstored => ?_, fun ⟨hstorable, htouches⟩ => ?_⟩
    · have hstorable := storable_of_stored hstored fun _ => rfl
      refine ⟨hstorable, ?_⟩
      by_contra hnone
      rw [Bool.not_eq_true, List.any_eq_false] at hnone
      obtain ⟨record, hrecord, hown, hhas, -⟩ := hstored
      have hwords := SQLite3.forall_mem_toList (P := fun name _ => isWord name = true) |>.mp
        (hsets.columnWords hstorable)
      have hkept := (update_rows hlaw.toLawful ht query hquery.table hquery.own hquery.user hwords
        db).2.2 fun old hold => by
          rw [satisfies_own hlaw.toLawful hid hquery.own hquery.user hquery.id]
          simpa using hnone old hold
      exact hnone record (hkept.mem_iff.mp hrecord) (by rw [hown, hhas]; rfl)
    · obtain ⟨old, hold, hselected⟩ := List.any_eq_true.mp htouches
      exact update_stored hlaw ht hid hzeros hlength hquery hsets db hupdated hisNew hstorable
        hold hselected

end Record

/-! ## A request -/

/-- If the reply is a success with an id, the record of the body is stored under it. -/
def SuccessStored (backend : SQLite3 δ) (account : Account) (request : Request)
    (state : LogBook × δ) : Prop :=
  let added := handleRequest backend account request state.1 state.2 {}
  let data := parse request.content
  ∀ id, added.2.2.2.status = .ok →
    added.2.2.2.content = id ++ bytes ";" ++ decimal account.id →
    Stored backend account id (data.headD []) (data.getD 1 [])
      (backend.tableRows added.2.2.1 logbookTable)

theorem addRecord_refused {account : Account} {columns row : List Bytes} {book : LogBook} {db : δ}
    {reply : Reply} (h : (addRecord backend account columns row book db reply).1 = false) :
    (addRecord backend account columns row book db reply).2.2.2.status = .badRequest := by
  revert h
  unfold addRecord
  dsimp only
  split_ifs
  · exact fun hfalse => absurd hfalse (by simp)
  · exact fun _ => rfl
  · exact fun hfalse => absurd hfalse (by simp)
  · exact fun _ => rfl

theorem addLog_accepted {account : Account} {request : Request} {columns row : List Bytes}
    (hbody : parse request.content = [columns, row, []]) {book : LogBook} {db : δ} {id : Bytes}
    (hstatus : (addLog backend account request book db {}).2.2.status = .ok)
    (hcontent : (addLog backend account request book db {}).2.2.content =
      id ++ bytes ";" ++ decimal account.id) :
    let added := addRecord backend account columns row { book with record := ∅ } db {}
    row.length = columns.length ∧ added.1 = true ∧
      addLog backend account request book db {} = added.2 := by
  have hne : id ++ bytes ";" ++ decimal account.id ≠ [] := by simp [bytes]
  revert hstatus hcontent
  simp only [addLog, hbody, List.headD_cons, List.tail_cons, addRecords, List.isEmpty_nil, if_true]
  split_ifs with hempty hlength hdone
  · exact fun _ hcontent => absurd hcontent.symm hne
  · exact fun hstatus => absurd hstatus (by simp [badRequest, Reply.setStatus])
  · exact fun _ _ => ⟨(not_ne_iff.mp hlength).symm, hdone, rfl⟩
  · exact fun hstatus => absurd (hstatus.symm.trans
      (addRecord_refused (Bool.eq_false_iff.mpr hdone))) (by simp)

variable {tables : List Table} (hlaw : backend.LawfulRowids tables) (ht : logbookTable ∈ tables)
  {account : Account} (hid : account.id < 2 ^ 63)
include hlaw ht hid

/-- In every reachable state, a record of a body of one record is stored if the reply is a success
with an id, if and only if it can be stored under the id, and it is new or a record of the user has
its id. -/
theorem successStored_iff {start : δ} {past : List (Event δ)} {state : LogBook × δ}
    (h : Run backend start past state) {request : Request}
    (huri : request.uri = bytes "/logbook/add") {columns row : List Bytes}
    (hbody : parse request.content = [columns, row, []]) {id : Bytes}
    (hstatus : (handleRequest backend account request state.1 state.2 {}).2.2.2.status = .ok)
    (hcontent : (handleRequest backend account request state.1 state.2 {}).2.2.2.content =
      id ++ bytes ";" ++ decimal account.id) :
    SuccessStored backend account request state ↔ Storable backend account columns row ∧
      touches backend account columns row (backend.tableRows state.2 logbookTable) = true := by
  have hready : Ready { state.1 with record := ∅ } :=
    ⟨(ready_of_run h).getLogs, (ready_of_run h).addLog, (ready_of_run h).removeLog⟩
  have hmem : row ∈ parse request.content := by simp [hbody]
  rw [handleRequest_add huri] at hstatus hcontent
  obtain ⟨hlength, hdone, hadded⟩ := addLog_accepted hbody hstatus hcontent
  rw [hadded] at hcontent
  have hiff := addRecord_stored hlaw ht hid (noZeros_parse hmem) hlength hready
    (ownKeys_empty columns) state.2 {} hdone hcontent
  simp only [SuccessStored, handleRequest_add huri, hbody, List.headD_cons, List.getD_cons_succ,
    List.getD_cons_zero]
  rw [← hiff, hadded]
  refine ⟨fun hall => hall id ?_ hcontent, fun hstored other _ hother => ?_⟩
  · rwa [hadded] at hstatus
  · obtain rfl : id = other :=
      List.append_cancel_right (List.append_cancel_right (hcontent.symm.trans hother))
    exact hstored

omit hlaw ht hid

def sampleRecord (id : Bytes) : Request where
  uri := bytes "/logbook/add"
  content := bytes "id;callsign\n" ++ id ++ bytes ";OK1DST\n"

theorem successStored_iff_sampleRecord : ∃ state,
    Run sampleBackend sampleDatabase sampleEvents state ∧
      (SuccessStored sampleBackend sampleAccount (sampleRecord (bytes "3")) state ↔
        Storable sampleBackend sampleAccount [bytes "id", bytes "callsign"]
          [bytes "3", bytes "OK1DST"] ∧
        touches sampleBackend sampleAccount [bytes "id", bytes "callsign"]
          [bytes "3", bytes "OK1DST"] (sampleBackend.tableRows state.2 logbookTable) = true) := by
  have hexec : (System.exec (system sampleBackend sampleDatabase) (fun _ _ => true)
      ({}, sampleDatabase) sampleEvents).any (fun state =>
        let reply := (handleRequest sampleBackend sampleAccount (sampleRecord (bytes "3")) state.1
          state.2 {}).2.2.2
        reply.status == .ok && reply.content == bytes "3" ++ bytes ";" ++
          decimal sampleAccount.id) = true := by decide +kernel
  obtain ⟨state, hrun, hstate⟩ := System.exists_run_of_exec hexec
  simp only [Bool.and_eq_true, beq_iff_eq] at hstate
  exact ⟨state, hrun, successStored_iff sampleBackend_lawfulRowids (by decide) (by decide) hrun rfl
    (by decide +kernel) hstate.1 hstate.2⟩

/-- The reply to an update of a record that is not there is the one to an update that is done. -/
theorem not_successStored_missing :
    ¬ SuccessStored sampleBackend sampleAccount (sampleRecord (bytes "99"))
      ({}, sampleDatabase) := by
  intro h
  obtain ⟨record, hrecord, -, hid, -⟩ := h (bytes "99") (by decide +kernel) (by decide +kernel)
  have hnone : ∀ record ∈ sampleBackend.tableRows (handleRequest sampleBackend sampleAccount
      (sampleRecord (bytes "99")) {} sampleDatabase {}).2.2.1 logbookTable,
      hasId sampleBackend (bytes "99") record = false := by decide +kernel
  exact absurd (hid.symm.trans (hnone record hrecord)) (by simp)

end Hamlog.Server.LogBook
