import Hamlog.Server.Responders.LogBookWrites

/-! # What a refused body leaves behind

`addLog` stores the records of a body one by one, without a transaction. When a
record is refused, the records in front of it stay: a refused body leaves the
table as it was if they changed nothing, and never if one of them was new.
-/
namespace Hamlog.Server.LogBook
open Foundation Wire StorageBackend

variable {δ : Type*} (backend : SQLite3 δ)

/-- The rows of a body whose records are stored before one is refused, or none if all are taken. -/
def storedBefore (account : Account) (columns : List Bytes) :
    List (List Bytes) → LogBook → δ → Reply → Option (List (List Bytes))
  | [], _, _, _ => none
  | row :: rows, book, db, reply =>
    if row.isEmpty then storedBefore account columns rows book db reply
    else if columns.length ≠ row.length then some []
    else
      let added := addRecord backend account columns row book db reply
      if added.1 then
        (storedBefore account columns rows added.2.1 added.2.2.1 added.2.2.2).map (row :: ·)
      else some []

/-- The records that a refused request leaves stored. -/
def leftStored (account : Account) (request : Request) (state : LogBook × δ) :
    List (List Bytes) :=
  let data := parse request.content
  (storedBefore backend account (data.headD []) data.tail { state.1 with record := ∅ } state.2
    {}).getD []

/-- If the request is refused, the table holds the records it held before. -/
def Atomic (account : Account) (request : Request) (state : LogBook × δ) : Prop :=
  let added := handleRequest backend account request state.1 state.2 {}
  added.2.2.2.status = .badRequest →
    (backend.tableRows added.2.2.1 logbookTable).Perm (backend.tableRows state.2 logbookTable)

def idOf (columns row : List Bytes) : Bytes :=
  (withId (fillRecord ∅ columns row)).getD (bytes "id") []

def isNew (columns row : List Bytes) : Bool := idOf columns row == bytes "-1"

def recordConditions (account : Account) (id : Bytes) : StringMap :=
  ((∅ : StringMap).insert (bytes "user_id") (decimal account.id)).insert (bytes "id") id

/-- A record of the body that is new or names a record of the user. -/
def touches (account : Account) (columns row : List Bytes) (table : List Row) : Bool :=
  isNew columns row || table.any
    (backend.satisfies logbookTable (recordConditions account (idOf columns row)).toList)

variable {backend}

/-! ## The record map between records -/

/-- The record map holds no id between records, and its keys are words. -/
structure Between (record : StringMap) : Prop where
  id : record[bytes "id"]? = none
  words : record.AllKeys fun name => isWord name = true

theorem between_empty : Between ∅ := ⟨by simp, fun name value h => by simp at h⟩

/-- A key that is not in the map gets its value from the row alone. -/
theorem getElem?_fillRecord (record : StringMap) (columns row : List Bytes) (name : Bytes) :
    (fillRecord record columns row)[name]? =
      ((fillRecord ∅ columns row)[name]?).or record[name]? := by
  have hfold (pairs : List (Bytes × Bytes)) (m : StringMap) :
      (pairs.foldl (fun record column => record.insert column.1 column.2) m)[name]? =
        ((pairs.foldl (fun record column => record.insert column.1 column.2)
          (∅ : StringMap))[name]?).or m[name]? := by
    induction pairs generalizing m with
    | nil => simp
    | cons pair pairs ih =>
      rw [List.foldl_cons, List.foldl_cons, ih, ih (Std.TreeMap.insert ∅ _ _), Option.or_assoc,
        StringMap.getElem?_insert, StringMap.getElem?_insert]
      split_ifs <;> simp
  exact hfold (columns.zip row) record

theorem getD_withId (record : StringMap) :
    (withId record).getD (bytes "id") [] = (record[bytes "id"]?).getD [] := by
  rw [Std.TreeMap.getD_eq_getD_getElem?]
  unfold withId
  split_ifs with hcontains
  · rfl
  · rw [Std.TreeMap.contains_eq_isSome_getElem?, Bool.not_eq_true, Option.isSome_eq_false_iff,
      Option.isNone_iff_eq_none] at hcontains
    rw [StringMap.getElem?_insert, if_pos rfl, hcontains]
    rfl

theorem Between.idOf {record : StringMap} (h : Between record) (columns row : List Bytes) :
    (withId (fillRecord record columns row)).getD (bytes "id") [] = idOf columns row := by
  rw [LogBook.idOf, getD_withId, getD_withId, getElem?_fillRecord, h.id, Option.or_none]

/-! ## One record -/

variable {tables : List Table} (hlaw : backend.Lawful tables) (ht : logbookTable ∈ tables)
include hlaw ht

theorem insert_rows {query : Insert} (hquery : query.table = bytes "logbook") {record : StringMap}
    (hwords : record.AllKeys fun name => isWord name = true) (db : δ) :
    let inserted := backend.insert db query record
    (inserted.1 = false →
        backend.tableRows inserted.2 logbookTable = backend.tableRows db logbookTable) ∧
      (inserted.1 = true → (backend.tableRows inserted.2 logbookTable).length =
        (backend.tableRows db logbookTable).length + 1) := by
  rcases hlaw.insert_cases ht db query hquery hwords.toList with
    ⟨hdone, hsame⟩ | ⟨hdone, -, before, row, after, hold, hnew, -⟩
  · exact ⟨fun _ => hsame _, fun htrue => absurd (hdone.symm.trans htrue) Bool.false_ne_true⟩
  · refine ⟨fun hfalse => absurd (hfalse.symm.trans hdone) Bool.false_ne_true, fun _ => ?_⟩
    rw [hnew, hold]
    simp only [List.length_append, List.length_cons]
    omega

/-- An update keeps the number of rows, and the rows themselves if none meets its conditions. -/
theorem update_rows (query : Insert) (hquery : query.table = bytes "logbook")
    (hwheres : OwnConditions query.wheres) {account : Account}
    (hown : query.wheres[bytes "user_id"]? = some (decimal account.id)) {record : StringMap}
    (hwords : record.AllKeys fun name => isWord name = true) (db : δ) :
    let updated := backend.update db query record
    (updated.1 = false →
        backend.tableRows updated.2 logbookTable = backend.tableRows db logbookTable) ∧
      (backend.tableRows updated.2 logbookTable).length =
        (backend.tableRows db logbookTable).length ∧
      ((∀ row ∈ backend.tableRows db logbookTable,
          backend.satisfies logbookTable query.wheres.toList row = false) →
        (backend.tableRows updated.2 logbookTable).Perm (backend.tableRows db logbookTable)) := by
  rcases hlaw.update_cases ht db query hquery hwords.toList (ownConditions_names hwheres) with
    ⟨hdone, hsame⟩ | ⟨hdone, -, hupdated⟩
  · have hsame' : backend.tableRows (backend.update db query record).2 logbookTable =
        backend.tableRows db logbookTable := hsame _
    exact ⟨fun _ => hsame', congrArg List.length hsame', fun _ => List.Perm.of_eq hsame'⟩
  · obtain ⟨f, hrows, -⟩ := hupdated (ownConditions_filters hwheres hown)
    refine ⟨fun hfalse => absurd (hfalse.symm.trans hdone) Bool.false_ne_true, ?_, fun hnone => ?_⟩
    · exact hrows.length_eq.trans (List.length_map _)
    · refine hrows.trans (List.Perm.of_eq ?_)
      conv_rhs => rw [← List.map_id (backend.tableRows db logbookTable)]
      exact List.map_congr_left fun row hrow => if_neg (by simp [hnone row hrow])

omit hlaw ht in
/-- The conditions of the update of a record, whatever conditions the query had before. -/
theorem satisfies_recordConditions {query : Insert} (hwheres : OwnConditions query.wheres)
    (account : Account) (id : Bytes) (row : Row) :
    backend.satisfies logbookTable ((query.where_ (bytes "user_id") (decimal account.id)).where_
        (bytes "id") id).wheres.toList row =
      backend.satisfies logbookTable (recordConditions account id).toList row := by
  have hsame (name : Bytes) : ((query.where_ (bytes "user_id") (decimal account.id)).where_
      (bytes "id") id).wheres[name]? = (recordConditions account id)[name]? := by
    simp only [Insert.where_, recordConditions, StringMap.getElem?_insert]
    split_ifs with hid huser
    · rfl
    · rfl
    · cases hvalue : query.wheres[name]? with
      | none => simp
      | some value =>
        have hmem := hwheres name value hvalue
        simp only [List.mem_cons, List.not_mem_nil, or_false] at hmem
        exact absurd hmem (by tauto)
  rw [Bool.eq_iff_iff, SQLite3.satisfies_toList, SQLite3.satisfies_toList]
  simp only [hsame]

theorem addRecord_rows (account : Account) {columns : List Bytes}
    (hcolumns : ∀ name ∈ columns, isWord name = true) (row : List Bytes) {book : LogBook}
    (hready : Ready book) (hbetween : Between book.record) (db : δ) (reply : Reply) :
    let added := addRecord backend account columns row book db reply
    let table := backend.tableRows db logbookTable
    let table' := backend.tableRows added.2.2.1 logbookTable
    Between added.2.1.record ∧
      (added.1 = false → added.2.2.2.status = .badRequest ∧ table' = table) ∧
      (added.1 = true → added.2.2.2.status = reply.status ∧
        table'.length = table.length + (if isNew columns row then 1 else 0) ∧
        (touches backend account columns row table = false → table'.Perm table)) := by
  have hid := hbetween.idOf columns row
  have hwords := allKeys_withId (allKeys_fillRecord hbetween.words hcolumns row) (by decide)
  have hne : bytes "user_id" ≠ bytes "id" := by decide
  unfold addRecord
  dsimp only
  by_cases hnew : idOf columns row = bytes "-1"
  · have hisNew : isNew columns row = true := beq_iff_eq.mpr hnew
    have hkeys := (hwords.erase (bytes "id")).insert (bytes "user_id") (by decide)
      (decimal account.id)
    have hinsert := insert_rows hlaw ht hready.addLog.1 hkeys db
    have hbetween' : Between (((withId (fillRecord book.record columns row)).erase
        (bytes "id")).insert (bytes "user_id") (decimal account.id)) :=
      ⟨by rw [StringMap.getElem?_insert, if_neg hne, StringMap.getElem?_erase, if_pos rfl], hkeys⟩
    rw [hid, if_pos hnew]
    split_ifs with hdone
    · exact ⟨hbetween', fun hfalse => absurd hfalse (by simp), fun _ => ⟨rfl, hinsert.2 hdone,
        fun htouches => absurd htouches (by simp [touches, hisNew])⟩⟩
    · exact ⟨hbetween', fun _ => ⟨rfl, hinsert.1 (by simpa using hdone)⟩,
        fun htrue => absurd htrue (by simp)⟩
  · have hkeys := (hwords.erase (bytes "user_id")).erase (bytes "id")
    have hwheres : OwnConditions ((book.addLogQuery.where_ (bytes "user_id")
        (decimal account.id)).where_ (bytes "id") (idOf columns row)).wheres :=
      (hready.addLog.2.insert (by simp) _).insert (by simp) _
    have hown : ((book.addLogQuery.where_ (bytes "user_id") (decimal account.id)).where_
        (bytes "id") (idOf columns row)).wheres[bytes "user_id"]? = some (decimal account.id) := by
      rw [Insert.where_, Insert.where_, StringMap.getElem?_insert, if_neg hne.symm,
        StringMap.getElem?_insert, if_pos rfl]
    have hupdate := update_rows hlaw ht ((book.addLogQuery.where_ (bytes "user_id")
      (decimal account.id)).where_ (bytes "id") (idOf columns row)) hready.addLog.1 hwheres hown
      hkeys db
    have hisNew : isNew columns row = false := beq_false_of_ne hnew
    have hbetween' : Between (((withId (fillRecord book.record columns row)).erase
        (bytes "user_id")).erase (bytes "id")) :=
      ⟨by rw [StringMap.getElem?_erase, if_pos rfl], hkeys⟩
    rw [hid, if_neg hnew, if_neg (by simp [hisNew] : ¬ isNew columns row = true)]
    split_ifs with hdone
    · refine ⟨hbetween', fun hfalse => absurd hfalse (by simp), fun _ =>
        ⟨rfl, hupdate.2.1, fun htouches => hupdate.2.2 fun r hr => ?_⟩⟩
      rw [touches, hisNew, Bool.false_or, List.any_eq_false] at htouches
      rw [satisfies_recordConditions hready.addLog.2]
      simpa using htouches r hr
    · exact ⟨hbetween', fun _ => ⟨rfl, hupdate.1 (by simpa using hdone)⟩,
        fun htrue => absurd htrue (by simp)⟩

/-! ## A body -/

omit hlaw ht in
theorem touches_perm {account : Account} {columns row : List Bytes} {table table' : List Row}
    (h : table'.Perm table) :
    touches backend account columns row table' = touches backend account columns row table := by
  rw [touches, touches, h.any_eq]

/-- What the rows of a body do: each new record in front of the refused one adds a row, and records
that touch nothing leave the table as it is. -/
theorem addRecords_rows (account : Account) {columns : List Bytes}
    (hcolumns : ∀ name ∈ columns, isWord name = true) (rows : List (List Bytes)) {book : LogBook}
    (hready : Ready book) (hbetween : Between book.record) (db : δ) (reply : Reply)
    (hreply : reply.status = .ok) :
    let added := addRecords backend account columns rows book db reply
    let table := backend.tableRows db logbookTable
    let table' := backend.tableRows added.2.1 logbookTable
    (storedBefore backend account columns rows book db reply = none → added.2.2.status = .ok) ∧
      ∀ stored, storedBefore backend account columns rows book db reply = some stored →
        added.2.2.status = .badRequest ∧
        table'.length = table.length + stored.countP (isNew columns) ∧
        ((∀ row ∈ stored, touches backend account columns row table = false) →
          table'.Perm table) := by
  have hrefused (stored : List (List Bytes)) (h : some [] = some stored) : stored = [] :=
    (Option.some.inj h).symm
  induction rows generalizing book db reply with
  | nil => exact ⟨fun _ => hreply, fun stored hstored => absurd hstored (by simp [storedBefore])⟩
  | cons row rows ih =>
    obtain ⟨hbetween', hrejected, haccepted⟩ :=
      addRecord_rows hlaw ht account hcolumns row hready hbetween db reply
    simp only [addRecords, storedBefore]
    split_ifs with hempty hwidth hdone
    · exact ih hready hbetween db reply hreply
    · refine ⟨fun hnone => absurd hnone (by simp), fun stored hstored => ?_⟩
      rw [hrefused stored hstored]
      exact ⟨rfl, rfl, fun _ => List.Perm.refl _⟩
    · obtain ⟨hstatus, hlength, hperm⟩ := haccepted hdone
      have hrest := ih (addRecord_ready backend account columns row db reply hready) hbetween'
        (addRecord backend account columns row book db reply).2.2.1 _ (hstatus.trans hreply)
      refine ⟨fun hnone => hrest.1 (Option.map_eq_none_iff.mp hnone), fun stored hstored => ?_⟩
      obtain ⟨stored, htail, rfl⟩ := Option.map_eq_some_iff.mp hstored
      obtain ⟨hbad, hcount, hrows⟩ := hrest.2 stored htail
      refine ⟨hbad, ?_, fun htouches => ?_⟩
      · rw [hcount, hlength, List.countP_cons]
        omega
      · have hfirst := hperm (htouches row List.mem_cons_self)
        refine (hrows fun r hr => ?_).trans hfirst
        rw [touches_perm hfirst]
        exact htouches r (List.mem_cons_of_mem _ hr)
    · refine ⟨fun hnone => absurd hnone (by simp), fun stored hstored => ?_⟩
      obtain ⟨hstatus, hsame⟩ := hrejected (by simpa using hdone)
      rw [hrefused stored hstored]
      exact ⟨hstatus, congrArg List.length hsame, fun _ => List.Perm.of_eq hsame⟩

omit hlaw ht in
theorem storedBefore_unreached {account : Account} {columns : List Bytes}
    {rows : List (List Bytes)} {book : LogBook} {db : δ} {reply : Reply}
    (h : ((rows.find? fun row => !row.isEmpty).any fun row => row.length == columns.length) =
      false) :
    (storedBefore backend account columns rows book db reply).getD [] = [] := by
  induction rows with
  | nil => rfl
  | cons row rows ih =>
    simp only [storedBefore]
    rcases unreached_cons h with ⟨hempty, hrest⟩ | ⟨hempty, hlength⟩
    · rw [if_pos hempty]
      exact ih hrest
    · rw [hempty, if_neg Bool.false_ne_true, if_pos hlength]
      rfl

/-- In every reachable state, a refused body leaves the table as it was if the records in front of
the refused one are updates of no record, and not if one of them is new. The names of the columns
are SQL words if a record gets as far as the database. -/
theorem add_atomic {start : δ} {past : List (Event δ)} {state : LogBook × δ}
    (h : Run backend start past state) (account : Account) {request : Request}
    (huri : request.uri = bytes "/logbook/add")
    (hwords : reachesStore request.content = true →
      ∀ name ∈ (parse request.content).headD [], isWord name = true) :
    let columns := (parse request.content).headD []
    let stored := leftStored backend account request state
    ((∀ row ∈ stored, touches backend account columns row
        (backend.tableRows state.2 logbookTable) = false) → Atomic backend account request state) ∧
      ((∃ row ∈ stored, isNew columns row = true) → ¬ Atomic backend account request state) := by
  have hready : Ready { state.1 with record := ∅ } :=
    ⟨(ready_of_run h).getLogs, (ready_of_run h).addLog, (ready_of_run h).removeLog⟩
  have hhandled : handleRequest backend account request state.1 state.2 {} =
      (true, addLog backend account request state.1 state.2 {}) :=
    handleRequest_add huri
  simp only [Atomic, hhandled, leftStored, addLog]
  cases hreaches : reachesStore request.content with
  | false =>
    rw [storedBefore_unreached hreaches, addRecords_unreached _ hreaches]
    exact ⟨fun _ _ => List.Perm.refl _, fun ⟨row, hrow, _⟩ => absurd hrow List.not_mem_nil⟩
  | true =>
    obtain ⟨hnone, hsome⟩ := addRecords_rows hlaw ht account (hwords hreaches)
      (parse request.content).tail hready between_empty state.2 {} rfl
    cases hstored : storedBefore backend account ((parse request.content).headD [])
      (parse request.content).tail { state.1 with record := ∅ } state.2 {} with
    | none =>
      have hok := hnone hstored
      exact ⟨fun _ hbad => absurd (hok.symm.trans hbad) (by simp),
        fun ⟨row, hrow, _⟩ => absurd hrow List.not_mem_nil⟩
    | some stored =>
      obtain ⟨hbad, hcount, hrows⟩ := hsome stored hstored
      refine ⟨fun htouches _ => hrows htouches, fun ⟨row, hrow, hnew⟩ hatomic => ?_⟩
      have hlength := (hatomic hbad).length_eq
      have hpos : 0 < stored.countP (isNew ((parse request.content).headD [])) :=
        List.countP_pos_iff.mpr ⟨row, hrow, hnew⟩
      rw [hcount] at hlength
      omega

omit hlaw ht

/-- A body whose second record lacks a column. -/
def shortAdd (id : Bytes) : Request where
  uri := bytes "/logbook/add"
  content := bytes "id;callsign;qth\n" ++ id ++ bytes ";OK1KVK;Praha\n-1;OK1DST\n"

theorem add_atomic_shortAdd : ∃ state, Run sampleBackend sampleDatabase sampleEvents state ∧
    Atomic sampleBackend sampleAccount (shortAdd (bytes "99")) state := by
  have hstored : (System.exec (system sampleBackend sampleDatabase) (fun _ _ => true)
      ({}, sampleDatabase) sampleEvents).any (fun state =>
        (leftStored sampleBackend sampleAccount (shortAdd (bytes "99")) state).all fun row =>
          !touches sampleBackend sampleAccount ((parse (shortAdd (bytes "99")).content).headD [])
            row (sampleBackend.tableRows state.2 logbookTable)) = true := by decide +kernel
  obtain ⟨state, hrun, hstate⟩ := System.exists_run_of_exec hstored
  refine ⟨state, hrun, (add_atomic sampleBackend_lawful (by decide) hrun sampleAccount rfl
    fun _ => List.all_eq_true.mp (by decide +kernel)).1 fun row hrow => ?_⟩
  simpa using List.all_eq_true.mp hstate row hrow

theorem not_atomic_shortAdd :
    ¬ Atomic sampleBackend sampleAccount (shortAdd (bytes "-1")) ({}, sampleDatabase) := by
  intro h
  have hrefused : (handleRequest sampleBackend sampleAccount (shortAdd (bytes "-1")) {}
      sampleDatabase {}).2.2.2.status = .badRequest := by decide +kernel
  exact absurd (h hrefused).length_eq (by decide +kernel)

end Hamlog.Server.LogBook
