import Hamlog.Foundation.Relational
import Hamlog.Server.Responders.LogBookReads

/-! # What a write to the logbook leaves alone

`addLog` sets the column `user_id` of a new record and takes it out of an
update, but it knows the column by one spelling only, while SQL takes every
spelling, and it puts the names of columns into the statement as they come. The
records of other users are safe from headers whose names are words other than
further spellings of `user_id`.
-/
namespace Hamlog.Server.LogBook
open Foundation Wire StorageBackend

variable {δ : Type*} {backend : SQLite3 δ}

/-- A name that SQL reads as one word, and not as another spelling of `user_id`. -/
def isHarmless (name : Bytes) : Bool :=
  isWord name && (!sameName name (bytes "user_id") || name == bytes "user_id")

/-- A record of the body gets as far as the database. -/
def reachesStore (content : Bytes) : Bool :=
  let data := parse content
  (data.tail.find? fun row => !row.isEmpty).any fun row => row.length == (data.headD []).length

/-- A body that cannot touch the records of other users. -/
def HarmlessBody (content : Bytes) : Prop :=
  reachesStore content = true → ∀ name ∈ (parse content).headD [], isHarmless name = true

instance (content : Bytes) : Decidable (HarmlessBody content) :=
  inferInstanceAs (Decidable (_ → _))

/-- A map whose keys are harmless. -/
def HarmlessKeys (record : StringMap) : Prop :=
  ∀ name value : Bytes, record[name]? = some value → isHarmless name = true

theorem isHarmless_iff {name : Bytes} :
    isHarmless name ↔ isWord name = true ∧
      (sameName name (bytes "user_id") = true → name = bytes "user_id") := by
  rw [isHarmless, Bool.and_eq_true, Bool.or_eq_true, Bool.not_eq_true', beq_iff_eq]
  refine and_congr_right fun _ => ⟨fun h hsame => ?_, fun h => ?_⟩
  · exact h.resolve_left (by simp [hsame])
  · cases hsame : sameName name (bytes "user_id") with
    | false => exact Or.inl rfl
    | true => exact Or.inr (h hsame)

theorem HarmlessKeys.words {record : StringMap} (h : HarmlessKeys record) :
    ∀ set ∈ record.toList, isWord set.1 = true :=
  fun set hset => (isHarmless_iff.mp (StringMap.AllKeys.toList h set hset)).1

/-- A word that is no further spelling of `id` or `user_id` and no name of the row identifier. -/
def isOrdinary (name : Bytes) : Bool :=
  isHarmless name && (!sameName name (bytes "id") || name == bytes "id") &&
    SQLite3.rowidNames.all fun other => !sameName name other

theorem isOrdinary_iff {name : Bytes} : isOrdinary name = true ↔ isWord name = true ∧
    (sameName name (bytes "user_id") = true → name = bytes "user_id") ∧
      (sameName name (bytes "id") = true → name = bytes "id") ∧
        ∀ other ∈ SQLite3.rowidNames, sameName name other = false := by
  rw [isOrdinary, Bool.and_eq_true, Bool.and_eq_true, isHarmless_iff, Bool.or_eq_true,
    Bool.not_eq_true', beq_iff_eq, List.all_eq_true]
  simp only [Bool.not_eq_true', and_assoc]
  refine and_congr_right fun _ => and_congr_right fun _ => and_congr_left fun _ => ?_
  cases sameName name (bytes "id") <;> simp

/-- The record map after a row under a header whose names have a property. -/
theorem allKeys_fillRecord {p : Bytes → Prop} {record : StringMap} (h : record.AllKeys p)
    {columns : List Bytes} (hcolumns : ∀ name ∈ columns, p name) (row : List Bytes) :
    (fillRecord record columns row).AllKeys p := by
  unfold fillRecord
  induction columns generalizing record row with
  | nil => exact h
  | cons name columns ih =>
    cases row with
    | nil => exact h
    | cons value row =>
      exact ih (h.insert name (hcolumns name List.mem_cons_self) value)
        (fun n hn => hcolumns n (List.mem_cons_of_mem _ hn)) row

theorem allKeys_withId {p : Bytes → Prop} {record : StringMap} (h : record.AllKeys p)
    (hid : p (bytes "id")) : (withId record).AllKeys p := by
  unfold withId
  split_ifs
  · exact h
  · exact h.insert _ hid []

/-! ## One statement -/

theorem userColumn : ∃ column ∈ logbookTable.columns, column.name = bytes "user_id" ∧
    column.type = .integer ∧ column.primaryKey = false :=
  ⟨⟨bytes "user_id", .integer, false⟩, by decide, rfl, rfl, rfl⟩

theorem logbookTable_column : logbookTable.names.Nodup ∧
    ∀ column ∈ logbookTable.columns, (column.primaryKey = true ↔ column.name = bytes "id") ∧
      (column.name = bytes "user_id" → column.type = .integer) := by
  decide +kernel

theorem isOrdinary_names {name : Bytes} (h : name ∈ logbookTable.names) :
    isOrdinary name = true := by
  have hall : logbookTable.names.all isOrdinary = true := by decide +kernel
  exact List.all_eq_true.mp hall name h

theorem eq_of_sameName {a b : Bytes} (ha : a ∈ logbookTable.names) (hb : b ∈ logbookTable.names)
    (h : sameName a b = true) : a = b := by
  have hall : logbookTable.names.all (fun a => logbookTable.names.all fun b =>
      !sameName a b || a == b) = true := by decide +kernel
  have hpair := List.all_eq_true.mp (List.all_eq_true.mp hall a ha) b hb
  simpa [h] using hpair

/-- A column is assigned the value that is bound to its name. -/
theorem assigned_toList {sets : StringMap} (hsets : sets.AllKeys (· ∈ logbookTable.names))
    {column : Column} (hcolumn : column ∈ logbookTable.columns) {old new : Option Bytes}
    (h : backend.Assigned column sets.toList old new) :
    new = (sets[column.name]?.map fun value => backend.store column.type (cstr value)).or old := by
  rcases h with ⟨set, hset, hspelling, hnew⟩ | ⟨hnone, hnew⟩
  · have hget := Std.TreeMap.mem_toList_iff_getElem?_eq_some.mp hset
    have hsame := eq_of_sameName (hsets _ _ hget) (List.mem_map_of_mem hcolumn) hspelling
    rw [hsame] at hget
    rw [hget, hnew]
    rfl
  · cases hget : sets[column.name]? with
    | none => simpa using hnew
    | some value =>
      have hself : sameName column.name column.name = true := by simp [sameName]
      exact absurd (hself.symm.trans
        (hnone _ (Std.TreeMap.mem_toList_iff_getElem?_eq_some.mpr hget))) (by simp)

/-- Rows that meet a condition on `user_id` are rows of that user. -/
theorem isOwn_of_satisfies {tables : List Table} (hlaw : backend.Lawful tables) {account : Account}
    (hid : account.id < 2 ^ 63) {wheres : StringMap}
    (hwheres : wheres[bytes "user_id"]? = some (decimal account.id)) {row : Row}
    (h : backend.satisfies logbookTable wheres.toList row = true) : isOwn account row = true := by
  have htype : logbookTable.typeOf (bytes "user_id") = .integer := by decide
  have hequals := SQLite3.satisfies_toList.mp h _ _ hwheres
  rw [htype, cstr_decimal, hlaw.equals_integer _ _ hid] at hequals
  exact beq_iff_eq.mpr hequals

/-- The conditions of the queries are on columns of the table. -/
theorem ownConditions_names {wheres : StringMap} (h : OwnConditions wheres) :
    ∀ cond ∈ wheres.toList, cond.1 ∈ logbookTable.names := by
  refine fun cond hcond => mem_names ?_
  have hmem := StringMap.AllKeys.toList h cond hcond
  simp only [List.mem_cons, List.not_mem_nil, or_false] at hmem ⊢
  tauto

/-- They are decided by texts when that on `user_id` is on the number of a user. -/
theorem ownConditions_filters {wheres : StringMap} (h : OwnConditions wheres) {account : Account}
    (huser : wheres[bytes "user_id"]? = some (decimal account.id)) :
    ∀ cond ∈ wheres.toList, SQLite3.Filters logbookTable cond := by
  refine SQLite3.forall_mem_toList (P := fun name value =>
    SQLite3.Filters logbookTable (name, value)) |>.mpr fun name value hvalue => ?_
  have hmem := h name value hvalue
  simp only [List.mem_cons, List.not_mem_nil, or_false] at hmem
  rcases hmem with rfl | rfl
  · obtain rfl := Option.some.inj (huser.symm.trans hvalue)
    exact filters_user account.id
  · exact ⟨⟨bytes "id", .integer, true⟩, by decide, rfl, .inr (.inl rfl)⟩

/-- A record has an id, as SQLite compares the column with a text. -/
def hasId (backend : SQLite3 δ) (id : Bytes) (row : Row) : Bool :=
  backend.equals .integer (logbookTable.value row (bytes "id")) (cstr id)

/-- Conditions on both columns are met by the rows of the user with the id. -/
theorem satisfies_own {tables : List Table} (hlaw : backend.Lawful tables) {account : Account}
    (hid : account.id < 2 ^ 63) {wheres : StringMap} (hwheres : OwnConditions wheres)
    (huser : wheres[bytes "user_id"]? = some (decimal account.id)) {id : Bytes}
    (hrecord : wheres[bytes "id"]? = some id) (row : Row) :
    backend.satisfies logbookTable wheres.toList row =
      (isOwn account row && hasId backend id row) := by
  have htype : logbookTable.typeOf (bytes "user_id") = .integer := by decide
  have hidType : logbookTable.typeOf (bytes "id") = .integer := by decide
  rw [Bool.eq_iff_iff, Bool.and_eq_true]
  constructor
  · intro h
    have hequals := SQLite3.satisfies_toList.mp h _ _ hrecord
    rw [hidType] at hequals
    exact ⟨isOwn_of_satisfies hlaw hid huser h, hequals⟩
  · rintro ⟨hown, hequals⟩
    refine SQLite3.satisfies_toList.mpr fun name value hvalue => ?_
    have hmem := hwheres name value hvalue
    simp only [List.mem_cons, List.not_mem_nil, or_false] at hmem
    rcases hmem with rfl | rfl
    · obtain rfl := Option.some.inj (huser.symm.trans hvalue)
      rw [htype, cstr_decimal, hlaw.equals_integer _ _ hid]
      exact beq_iff_eq.mp hown
    · obtain rfl := Option.some.inj (hrecord.symm.trans hvalue)
      rw [hidType]
      exact hequals

variable {tables : List Table} (hlaw : backend.Lawful tables) (ht : logbookTable ∈ tables)
  {account : Account} (hid : account.id < 2 ^ 63) (db : δ)
include hlaw ht hid

/-- A new record belongs to the user when its only spelling of `user_id` is bound to the user. -/
theorem insert_isolated {query : Insert} (hquery : query.table = bytes "logbook")
    {record : StringMap} (hkeys : HarmlessKeys record)
    (huser : record[bytes "user_id"]? = some (decimal account.id)) :
    Isolated (isOwn account) (backend.tableRows db logbookTable)
      (backend.tableRows (backend.insert db query record).2 logbookTable) := by
  rcases hlaw.insert_cases ht db query hquery hkeys.words with
    ⟨-, hsame⟩ | ⟨-, -, before, row, after, hold, hnew, hrow, -⟩
  · exact Isolated.of_eq (hsame _)
  · have hown : isOwn account row = true := by
      obtain ⟨column, hcolumn, hname, htype, hkey⟩ := userColumn
      have hassigned := hrow column hcolumn
      rw [if_neg (by simp [hkey]), hname] at hassigned
      rcases hassigned with ⟨set, hset, hspelling, hvalue⟩ | ⟨hnone, -⟩
      · have hget := Std.TreeMap.mem_toList_iff_getElem?_eq_some.mp hset
        rw [hname] at hspelling
        rw [(isHarmless_iff.mp (hkeys _ _ hget)).2 hspelling, huser, Option.some.injEq] at hget
        rw [htype, ← hget, cstr_decimal, hlaw.store_integer _ hid] at hvalue
        exact beq_iff_eq.mpr hvalue
      · have hmem := Std.TreeMap.mem_toList_iff_getElem?_eq_some.mpr huser
        have hspelling := hnone _ hmem
        have hself : sameName (bytes "user_id") (bytes "user_id") = true := by decide
        rw [hname, hself] at hspelling
        exact absurd hspelling (by simp)
    refine Isolated.insert row hown ?_
    rw [hnew, hold]
    exact List.perm_middle

/-- An update touches rows of the user only, and they stay the user's. -/
theorem update_isolated (query : Insert) (hquery : query.table = bytes "logbook")
    (hwheres : OwnConditions query.wheres)
    (hown : query.wheres[bytes "user_id"]? = some (decimal account.id)) {record : StringMap}
    (hkeys : HarmlessKeys record) (huser : record[bytes "user_id"]? = none) :
    Isolated (isOwn account) (backend.tableRows db logbookTable)
      (backend.tableRows (backend.update db query record).2 logbookTable) := by
  rcases hlaw.update_cases ht db query hquery hkeys.words (ownConditions_names hwheres) with
    ⟨-, hsame⟩ | ⟨-, -, hupdated⟩
  · exact Isolated.of_eq (hsame _)
  · obtain ⟨f, hrows, hassigned⟩ := hupdated (ownConditions_filters hwheres hown)
    refine Isolated.update (backend.satisfies logbookTable query.wheres.toList) f
      (fun row _ hsel => isOwn_of_satisfies hlaw hid hown hsel) (fun row hrow hsel => ?_) hrows
    obtain ⟨column, hcolumn, hname, -, hkey⟩ := userColumn
    have hvalue := isOwn_of_satisfies hlaw hid hown hsel
    rcases hassigned row hrow column hcolumn hkey with ⟨set, hset, hspelling, -⟩ | ⟨-, hkept⟩
    · have hget := Std.TreeMap.mem_toList_iff_getElem?_eq_some.mp hset
      rw [hname] at hspelling
      rw [(isHarmless_iff.mp (hkeys _ _ hget)).2 hspelling, huser] at hget
      exact absurd hget (by simp)
    · rw [hname] at hkept
      rwa [isOwn, hkept]

theorem remove_isolated (query : Select) (hquery : query.table = bytes "logbook")
    (hwheres : OwnConditions query.wheres)
    (hown : query.wheres[bytes "user_id"]? = some (decimal account.id)) :
    Isolated (isOwn account) (backend.tableRows db logbookTable)
      (backend.tableRows (backend.remove db query).2 logbookTable) := by
  rcases hlaw.remove_cases ht db query hquery (ownConditions_names hwheres) with
    ⟨-, hsame⟩ | ⟨-, -, hrows⟩
  · exact Isolated.of_eq (hsame _)
  · exact Isolated.delete (fun row _ hsel => isOwn_of_satisfies hlaw hid hown hsel)
      (hrows (ownConditions_filters hwheres hown))

/-! ## A body -/

/-- One record of a body keeps the rows of other users, and the record map harmless. -/
theorem addRecord_isolated {columns : List Bytes} (row : List Bytes)
    (hcolumns : ∀ name ∈ columns, isHarmless name = true) {book : LogBook} (hready : Ready book)
    (hrecord : HarmlessKeys book.record) (reply : Reply) :
    let added := addRecord backend account columns row book db reply
    Isolated (isOwn account) (backend.tableRows db logbookTable)
        (backend.tableRows added.2.2.1 logbookTable) ∧ HarmlessKeys added.2.1.record := by
  have hfilled := allKeys_withId (allKeys_fillRecord hrecord hcolumns row) (by decide)
  have hne : bytes "id" ≠ bytes "user_id" := by decide
  unfold addRecord
  dsimp only
  by_cases hnew : (withId (fillRecord book.record columns row)).getD (bytes "id") [] = bytes "-1"
  · have hkeys := (hfilled.erase (bytes "id")).insert (bytes "user_id") (by decide)
      (decimal account.id)
    have hinsert := insert_isolated hlaw ht hid db hready.addLog.1 hkeys
      (by rw [StringMap.getElem?_insert, if_pos rfl])
    rw [if_pos hnew]
    split_ifs <;> exact ⟨hinsert, hkeys⟩
  · have hkeys := (hfilled.erase (bytes "user_id")).erase (bytes "id")
    have hupdate := update_isolated hlaw ht hid db
      ((book.addLogQuery.where_ (bytes "user_id") (decimal account.id)).where_ (bytes "id")
        ((withId (fillRecord book.record columns row)).getD (bytes "id") []))
      hready.addLog.1 ((hready.addLog.2.insert (by simp) _).insert (by simp) _)
      (by
        rw [Insert.where_, Insert.where_, StringMap.getElem?_insert, if_neg hne,
          StringMap.getElem?_insert, if_pos rfl])
      hkeys
      (by rw [StringMap.getElem?_erase, if_neg hne, StringMap.getElem?_erase, if_pos rfl])
    rw [if_neg hnew]
    split_ifs <;> exact ⟨hupdate, hkeys⟩

theorem addRecords_isolated {columns : List Bytes}
    (hcolumns : ∀ name ∈ columns, isHarmless name = true) {rows : List (List Bytes)}
    {book : LogBook} (hready : Ready book) (hrecord : HarmlessKeys book.record) {reply : Reply} :
    Isolated (isOwn account) (backend.tableRows db logbookTable)
      (backend.tableRows (addRecords backend account columns rows book db reply).2.1
        logbookTable) := by
  induction rows generalizing book db reply with
  | nil => exact Isolated.refl _
  | cons row rows ih =>
    have hadded := addRecord_isolated hlaw ht hid db row hcolumns hready hrecord reply
    have hready' := addRecord_ready backend account columns row db reply hready
    simp only [addRecords]
    split_ifs
    · exact ih _ hready hrecord
    · exact Isolated.refl _
    · exact hadded.1.trans (ih _ hready' hadded.2)
    · exact hadded.1

theorem removeRecords_isolated {ids : List Bytes} {book : LogBook} (hready : Ready book) :
    Isolated (isOwn account) (backend.tableRows db logbookTable)
      (backend.tableRows (removeRecords backend account ids book db).2 logbookTable) := by
  induction ids generalizing book db with
  | nil => exact Isolated.refl _
  | cons id ids ih =>
    have hwheres : OwnConditions ((book.removeLogQuery.where_ (bytes "id") id).where_
        (bytes "user_id") (decimal account.id)).wheres :=
      (hready.removeLog.2.insert (by simp) id).insert (by simp) _
    have hremove := remove_isolated hlaw ht hid db
      ((book.removeLogQuery.where_ (bytes "id") id).where_ (bytes "user_id") (decimal account.id))
      hready.removeLog.1 hwheres
      (by rw [Select.where_, StringMap.getElem?_insert, if_pos rfl])
    exact hremove.trans (ih _ ⟨hready.getLogs, hready.addLog, hready.removeLog.1, hwheres⟩)

omit hlaw ht hid in
/-- If no record gets as far as the database, the first row is skipped or has a wrong number of
fields. -/
theorem unreached_cons {columns row : List Bytes} {rows : List (List Bytes)}
    (h : (((row :: rows).find? fun row => !row.isEmpty).any
      fun row => row.length == columns.length) = false) :
    (row.isEmpty = true ∧ ((rows.find? fun row => !row.isEmpty).any
      fun row => row.length == columns.length) = false) ∨
      (row.isEmpty = false ∧ columns.length ≠ row.length) := by
  cases hempty : row.isEmpty with
  | true =>
    rw [List.find?_cons_of_neg (by simp [hempty])] at h
    exact .inl ⟨rfl, h⟩
  | false =>
    rw [List.find?_cons_of_pos (by simp [hempty]), Option.any_some, beq_eq_false_iff_ne] at h
    exact .inr ⟨rfl, Ne.symm h⟩

omit hlaw ht hid in
/-- A body none of whose records gets as far as the database changes nothing. -/
theorem addRecords_unreached {columns : List Bytes} {rows : List (List Bytes)} {book : LogBook}
    {reply : Reply}
    (h : ((rows.find? fun row => !row.isEmpty).any fun row => row.length == columns.length) =
      false) :
    (addRecords backend account columns rows book db reply).2.1 = db := by
  induction rows with
  | nil => rfl
  | cons row rows ih =>
    simp only [addRecords]
    rcases unreached_cons h with ⟨hempty, hrest⟩ | ⟨hempty, hlength⟩
    · rw [if_pos hempty]
      exact ih hrest
    · rw [hempty, if_neg Bool.false_ne_true, if_pos hlength]

/-- In every reachable state, a request to remove records and a request to add records with a
harmless body leave the records of all other users as they are. The identifier of a user is a row
identifier. -/
theorem writes_isolated {start : δ} {past : List (Event δ)} {state : LogBook × δ}
    (h : Run backend start past state) {request : Request}
    (hwrite : request.uri = bytes "/logbook/remove" ∨
      request.uri = bytes "/logbook/add" ∧ HarmlessBody request.content) (reply : Reply) :
    Isolated (isOwn account) (backend.tableRows state.2 logbookTable)
      (backend.tableRows (handleRequest backend account request state.1 state.2 reply).2.2.1
        logbookTable) := by
  have hready := ready_of_run h
  have hne : bytes "/logbook/remove" ≠ bytes "/logbook" ∧
      bytes "/logbook/remove" ≠ bytes "/logbook/add" ∧ bytes "/logbook/add" ≠ bytes "/logbook" := by
    decide
  rcases hwrite with huri | ⟨huri, hbody⟩
  · rw [handleRequest, huri, if_neg hne.1, if_neg hne.2.1, if_pos rfl]
    exact removeRecords_isolated hlaw ht hid _ hready
  · rw [handleRequest, huri, if_neg hne.2.2, if_pos rfl]
    have hready' : Ready { state.1 with record := ∅ } :=
      ⟨hready.getLogs, hready.addLog, hready.removeLog⟩
    cases hreaches : reachesStore request.content with
    | false => exact Isolated.of_eq (congrArg (backend.tableRows · logbookTable)
        (addRecords_unreached _ hreaches))
    | true =>
      have hempty : HarmlessKeys { state.1 with record := ∅ }.record :=
        fun name value hvalue => by simp at hvalue
      exact addRecords_isolated hlaw ht hid _ (hbody hreaches) hready' hempty

omit hlaw ht hid

/-- A new record and a changed one. -/
def sampleAdd : Request where
  uri := bytes "/logbook/add"
  content := bytes "id;callsign;user_id\n-1;OK1DST;8\n3;OK1HRA;8\n"

theorem writes_isolated_sampleAdd : ∃ state,
    Run sampleBackend sampleDatabase sampleEvents state ∧
      Isolated (isOwn sampleAccount) (sampleBackend.tableRows state.2 logbookTable)
        (sampleBackend.tableRows (handleRequest sampleBackend sampleAccount sampleAdd state.1
          state.2 {}).2.2.1 logbookTable) := by
  have hrun : (System.exec (system sampleBackend sampleDatabase) (fun _ _ => true)
      ({}, sampleDatabase) sampleEvents).any (fun _ => true) = true := by decide +kernel
  obtain ⟨state, hrun, -⟩ := System.exists_run_of_exec hrun
  exact ⟨state, hrun, writes_isolated sampleBackend_lawful (by decide) (by decide) hrun
    (Or.inr ⟨rfl, by decide +kernel⟩) {}⟩

/-- A new record with a second spelling of `user_id`. -/
def sampleTheft : Request where
  uri := bytes "/logbook/add"
  content := bytes "id;USER_ID;callsign\n-1;8;OK2JRQ\n"

/-- The record that user 7 sends becomes a record of user 8. -/
theorem not_isolated_sampleTheft :
    ¬ Isolated (isOwn sampleAccount) (sampleBackend.tableRows sampleDatabase logbookTable)
      (sampleBackend.tableRows (handleRequest sampleBackend sampleAccount sampleTheft {}
        sampleDatabase {}).2.2.1 logbookTable) := by
  intro h
  exact absurd (List.Perm.length_eq h) (by decide +kernel)

end Hamlog.Server.LogBook
