import Hamlog.Server.Responders.LogBookWrites

/-! # A record that is added and fetched

The body of `/logbook/add` is read with quotes, but `sendLogs` writes the columns
of the records as they are, without any. A record comes back as it was sent if
its values hold nothing that the reader of the client takes for something else,
and if no earlier record leaves that reader between quotes.
-/
namespace Hamlog.Server.LogBook
open Foundation Wire StorageBackend

variable {δ : Type*} {backend : SQLite3 δ}

/-! ## The body and its record -/

/-- The columns of the header that the client sends. -/
def fetchColumns : List Bytes := (logbookTable.names.drop 2).dropLast

/-- The columns that are sent of each record, in the order of the header. -/
def headerColumns : List Bytes := bytes "id" :: bytes "user_id" :: fetchColumns

theorem header_eq : header = Tokens.joined headerColumns ++ [lf] := by decide +kernel

/-- A CSV document of one record, with a quoted value for each of its columns. -/
def recordBody (columns : List Bytes) (record : Bytes → Bytes) : Bytes :=
  Tokens.joined columns ++
    lf :: (Tokens.joined (columns.map fun name => Tokens.quoted (record name)) ++ [lf])

theorem headerColumns_plain : ∀ name ∈ headerColumns, ∀ c ∈ name, Tokens.isPlain c := by
  have hall : headerColumns.all (fun name => name.all Tokens.isPlain) = true := by decide +kernel
  intro name hname
  exact List.all_eq_true.mp (List.all_eq_true.mp hall name hname)

theorem names_eq : logbookTable.names = headerColumns ++ [bytes "comments"] := rfl

theorem headerColumns_nodup : headerColumns.Nodup ∧ bytes "comments" ∉ headerColumns := by
  have hnodup := logbookTable_column.1
  rw [names_eq, List.nodup_append] at hnodup
  exact ⟨hnodup.1, fun hmem => hnodup.2.2 _ hmem _ (List.mem_singleton_self _) rfl⟩

theorem notMem_fetchColumns : bytes "id" ∉ fetchColumns ∧ bytes "user_id" ∉ fetchColumns := by
  have hnodup := headerColumns_nodup.1
  rw [headerColumns, List.nodup_cons, List.nodup_cons] at hnodup
  exact ⟨fun hmem => hnodup.1 (List.mem_cons_of_mem _ hmem), hnodup.2.1⟩

/-- The header holds no quotes, no zero byte and no carriage return. -/
theorem header_plain {c : Byte} (h : c ∈ header) : c ≠ 0 ∧ c ≠ quote ∧ c ≠ cr := by
  rw [header_eq, List.mem_append, List.mem_singleton] at h
  rcases h with hmem | rfl
  · rcases Tokens.mem_joined hmem with rfl | ⟨name, hname, hc⟩
    · decide
    · obtain ⟨hzero, hquote, -, -, hcr⟩ :=
        Tokens.isPlain_iff.mp (headerColumns_plain name hname c hc)
      exact ⟨hzero, hquote, hcr⟩
  · decide

/-- Fields that stand for themselves. -/
theorem stands_self {texts : List Bytes} (h : ∀ text ∈ texts, ∀ c ∈ text, Tokens.isPlain c) :
    List.Forall₂ Tokens.Stands texts texts :=
  List.forall₂_same.mpr fun text htext => Tokens.stands_plain (h text htext)

theorem parse_recordBody {columns : List Bytes} (hne : columns ≠ [])
    (hcolumns : ∀ name ∈ columns, ∀ c ∈ name, Tokens.isPlain c) {record : Bytes → Bytes}
    (hrecord : ∀ name ∈ columns, 0 ∉ record name) :
    parse (recordBody columns record) = [columns, columns.map record, []] := by
  have hvalues : List.Forall₂ Tokens.Stands (columns.map fun name => Tokens.quoted (record name))
      (columns.map record) := by
    rw [List.forall₂_map_left_iff, List.forall₂_map_right_iff, List.forall₂_same]
    exact fun name hname => Tokens.stands_quoted (hrecord name hname)
  rw [parse, recordBody, Tokens.scan_line (stands_self hcolumns) hne rfl rfl,
    Tokens.scan_line hvalues (by simpa using hne) rfl rfl]
  rfl

/-- The record map after a row with a value for each column. -/
theorem fillRecord_map (record : Bytes → Bytes) (columns : List Bytes) (map : StringMap)
    (name : Bytes) :
    (fillRecord map columns (columns.map record))[name]? =
      if name ∈ columns then some (record name) else map[name]? := by
  have hzip : columns.zip (columns.map record) = columns.map fun name => (name, record name) := by
    simpa using List.zip_map' (f := id) (g := record) (l := columns)
  rw [fillRecord, hzip, List.foldl_map]
  exact StringMap.getElem?_foldl_insert map record columns name

/-- The map of bound values of a new record. -/
def BoundRecord (account : Account) (record : Bytes → Bytes) (sets : StringMap) : Prop :=
  ∀ name : Bytes, sets[name]? = if bytes "user_id" = name then some (decimal account.id)
    else if name ∈ fetchColumns then some (record name) else none

/-- What `addLog` does with a body of one new record: the record is inserted under the user. -/
theorem addLog_recordBody (backend : SQLite3 δ) {columns : List Bytes}
    (hcolumns : columns.Perm (bytes "id" :: fetchColumns))
    {record : Bytes → Bytes} (hnew : record (bytes "id") = bytes "-1")
    (hrecord : ∀ name ∈ fetchColumns, 0 ∉ record name) {request : Request}
    (hcontent : request.content = recordBody columns record) (account : Account) (book : LogBook)
    (db : δ) :
    ∃ sets : StringMap, BoundRecord account record sets ∧
      let added := addLog backend account request book db {}
      added.2.1 = (backend.insert db book.addLogQuery sets).2 ∧
        (added.2.2.status = .ok → (backend.insert db book.addLogQuery sets).1 = true) := by
  have hid : bytes "id" ∈ columns := hcolumns.mem_iff.mpr List.mem_cons_self
  have hne : columns ≠ [] := List.ne_nil_of_mem hid
  have hplain : ∀ name ∈ columns, ∀ c ∈ name, Tokens.isPlain c := fun name hname =>
    headerColumns_plain name (by
      rcases List.mem_cons.mp (hcolumns.mem_iff.mp hname) with rfl | hname
      · exact List.mem_cons_self
      · exact List.mem_cons_of_mem _ (List.mem_cons_of_mem _ hname))
  have hzero : ∀ name ∈ columns, 0 ∉ record name := by
    intro name hname
    rcases List.mem_cons.mp (hcolumns.mem_iff.mp hname) with rfl | hname
    · rw [hnew]
      decide
    · exact hrecord name hname
  have hfill := fillRecord_map record columns ∅
  have hwith : withId (fillRecord ∅ columns (columns.map record)) =
      fillRecord ∅ columns (columns.map record) := by
    rw [withId, if_pos]
    rw [Std.TreeMap.contains_eq_isSome_getElem?, hfill, if_pos hid]
    rfl
  have hvalue : (fillRecord ∅ columns (columns.map record)).getD (bytes "id") [] = bytes "-1" := by
    rw [Std.TreeMap.getD_eq_getD_getElem?, hfill, if_pos hid, hnew]
    rfl
  refine ⟨((fillRecord ∅ columns (columns.map record)).erase (bytes "id")).insert (bytes "user_id")
    (decimal account.id), fun name => ?_, ?_⟩
  · rw [StringMap.getElem?_insert, StringMap.getElem?_erase, hfill]
    have hmem : name ∈ columns ↔ name = bytes "id" ∨ name ∈ fetchColumns := by
      rw [hcolumns.mem_iff, List.mem_cons]
    have hnot := notMem_fetchColumns.1
    by_cases hname : bytes "id" = name
    · subst hname
      simp [hnot]
    · simp [hmem, hname, Ne.symm hname]
  · have hparse := parse_recordBody hne hplain hzero
    have hempty : (columns.map record).isEmpty = false := by simpa using hne
    unfold addLog
    simp only [hcontent, hparse, List.headD_cons, List.tail_cons, addRecords, hempty,
      List.length_map, ne_eq, not_true_eq_false, Bool.false_eq_true, if_false, List.isEmpty_nil,
      if_true, addRecord, hwith, hvalue]
    cases hinserted : (backend.insert db book.addLogQuery
        (((fillRecord ∅ columns (columns.map record)).erase (bytes "id")).insert (bytes "user_id")
          (decimal account.id))).1 with
    | true => exact ⟨rfl, fun _ => rfl⟩
    | false => exact ⟨rfl, fun hstatus => by cases hstatus⟩

/-! ## The new row -/

/-- The names that are bound for a new record. -/
def boundNames : List Bytes := bytes "user_id" :: fetchColumns

theorem boundNames_names {name : Bytes} (h : name ∈ boundNames ++ [bytes "comments"]) :
    name ∈ logbookTable.names ∧ name ≠ bytes "id" := by
  have hmem : name ∈ logbookTable.names := List.mem_cons_of_mem (bytes "id") h
  have hnodup := logbookTable_column.1
  rw [show logbookTable.names = bytes "id" :: (boundNames ++ [bytes "comments"]) from rfl,
    List.nodup_cons] at hnodup
  exact ⟨hmem, fun heq => hnodup.1 (heq ▸ h)⟩

/-- The bound names are words, columns of the table, and no names of the row identifier. -/
theorem boundNames_ok {name : Bytes} (h : name ∈ boundNames) :
    isWord name = true ∧ name ∈ logbookTable.names ∧
      (∀ other ∈ SQLite3.rowidNames, sameName name other = false) ∧
      ∀ column ∈ logbookTable.columns, column.primaryKey → sameName name column.name = false := by
  obtain ⟨hmem, hne⟩ := boundNames_names (List.mem_append_left _ h)
  obtain ⟨hword, -, hid, hrowid⟩ := isOrdinary_iff.mp (isOrdinary_names hmem)
  refine ⟨hword, hmem, hrowid, fun column hcolumn hkey => Bool.eq_false_iff.mpr fun hsame => ?_⟩
  rw [(logbookTable_column.2 column hcolumn).1.mp hkey] at hsame
  exact hne (hid hsame)

/-- A column of the table besides the primary key. -/
theorem exists_column {name : Bytes} (h : name ∈ boundNames ++ [bytes "comments"]) :
    ∃ column ∈ logbookTable.columns, column.name = name ∧ column.primaryKey = false := by
  obtain ⟨hmem, hne⟩ := boundNames_names h
  obtain ⟨column, hcolumn, rfl⟩ := List.mem_map.mp hmem
  exact ⟨column, hcolumn, rfl, Bool.eq_false_iff.mpr fun hkey =>
    hne ((logbookTable_column.2 column hcolumn).1.mp hkey)⟩

theorem BoundRecord.mem {account : Account} {record : Bytes → Bytes} {sets : StringMap}
    (h : BoundRecord account record sets) {name value : Bytes} (hvalue : sets[name]? = some value) :
    name ∈ boundNames := by
  rw [h] at hvalue
  split_ifs at hvalue with huser hname
  · exact huser ▸ List.mem_cons_self
  · exact List.mem_cons_of_mem _ hname

/-- A new row holds in each column what was bound to it, if the store keeps texts. -/
theorem value_newRow {account : Account} {record : Bytes → Bytes} {sets : StringMap}
    (h : BoundRecord account record sets)
    (hstore : ∀ column ∈ logbookTable.columns, ∀ value, sets[column.name]? = some value →
      backend.store column.type (cstr value) = value)
    {rowid : ℤ} {row : Row} (hrow : backend.NewRow logbookTable sets.toList rowid row)
    {column : Column} (hcolumn : column ∈ logbookTable.columns) (hkey : column.primaryKey = false) :
    logbookTable.value row column.name = sets[column.name]? := by
  have hnames : sets.AllKeys (· ∈ logbookTable.names) :=
    fun name value hvalue => (boundNames_ok (h.mem hvalue)).2.1
  have hassigned := hrow column hcolumn
  rw [if_neg (by simp [hkey])] at hassigned
  rw [assigned_toList hnames hcolumn hassigned, Option.or_none]
  cases hget : sets[column.name]? with
  | none => rfl
  | some value => rw [Option.map_some, hstore column hcolumn value hget]

/-- The texts that are sent for a record. -/
def sentTexts (account : Account) (record : Bytes → Bytes) (rowid : ℤ) : List Bytes :=
  decimalInt rowid :: decimal account.id :: fetchColumns.map record ++ [[]]

theorem recordTexts_newRow {account : Account} {record : Bytes → Bytes} {sets : StringMap}
    (h : BoundRecord account record sets)
    (hstore : ∀ column ∈ logbookTable.columns, ∀ value, sets[column.name]? = some value →
      backend.store column.type (cstr value) = value)
    (hrecord : ∀ name ∈ fetchColumns, 0 ∉ record name) {rowid : ℤ} {row : Row}
    (hrow : backend.NewRow logbookTable sets.toList rowid row) :
    isOwn account row = true ∧ recordTexts row = sentTexts account record rowid := by
  have hvalue {name : Bytes} (hname : name ∈ boundNames ++ [bytes "comments"]) :
      logbookTable.value row name = sets[name]? := by
    obtain ⟨column, hcolumn, rfl, hkey⟩ := exists_column hname
    exact value_newRow h hstore hrow hcolumn hkey
  have huser : logbookTable.value row (bytes "user_id") = some (decimal account.id) := by
    rw [hvalue (by simp [boundNames]), h, if_pos rfl]
  have hid : logbookTable.value row (bytes "id") = some (decimalInt rowid) :=
    hrow ⟨bytes "id", .integer, true⟩ (by decide)
  have hcomments : logbookTable.value row (bytes "comments") = none := by
    have hnot : bytes "comments" ∉ fetchColumns := fun hmem => headerColumns_nodup.2
      (List.mem_cons_of_mem _ (List.mem_cons_of_mem _ hmem))
    rw [hvalue (by simp), h, if_neg (by decide), if_neg hnot]
  have hfetched (name : Bytes) (hname : name ∈ fetchColumns) :
      logbookTable.value row name = some (record name) := by
    have hne := notMem_fetchColumns.2
    rw [hvalue (List.mem_append_left _ (List.mem_cons_of_mem _ hname)), h,
      if_neg fun heq : bytes "user_id" = name => hne (heq ▸ hname), if_pos hname]
  refine ⟨beq_iff_eq.mpr huser, ?_⟩
  have hnames : logbookTable.names = bytes "id" :: bytes "user_id" :: fetchColumns ++
      [bytes "comments"] := names_eq
  have hmap : fetchColumns.map (fun name => cstr ((logbookTable.value row name).getD [])) =
      fetchColumns.map record := by
    refine List.map_congr_left fun name hname => ?_
    rw [hfetched name hname, Option.getD_some, cstr_of_notMem (hrecord name hname)]
  rw [recordTexts, hnames, sentTexts]
  simp only [List.map_cons, List.map_append, List.cons_append, hid, huser, hcomments, hmap,
    Option.getD_some, Option.getD_none, cstr_decimalInt, cstr_decimal]
  rfl

/-! ## The text of a fetch -/

/-- The content of a reply as it is sent: without carriage returns. -/
def sentContent (reply : Reply) : Bytes := reply.toString.2.content

/-- A row of the tokens of a text maps each column to the value of the record. -/
def ReadBack (text : Bytes) (record : Bytes → Bytes) : Prop :=
  let tokens := QtLogBook.tokenize text
  ∃ row ∈ tokens.tail, ∀ name ∈ fetchColumns,
    ((tokens.headD []).zip row).lookup name = some (record name)

instance (text : Bytes) (record : Bytes → Bytes) : Decidable (ReadBack text record) :=
  inferInstanceAs (Decidable (∃ _ ∈ _, ∀ _ ∈ _, _))

/-- No value of the record holds a quote or a separator. -/
def Clean (record : Bytes → Bytes) : Prop :=
  ∀ name ∈ fetchColumns, ∀ c ∈ record name, c ≠ quote ∧ c ≠ ch ';' ∧ c ≠ lf

instance (record : Bytes → Bytes) : Decidable (Clean record) :=
  inferInstanceAs (Decidable (∀ _ ∈ _, ∀ _ ∈ _, _))

/-- What is sent for some records. -/
def sentLines (rows : List Row) : Bytes := (header ++ rows.flatMap line).filter (· ≠ cr)

theorem line_eq (row : Row) : line row = Tokens.joined (recordTexts row) ++ [lf] := rfl

theorem zero_notMem_line (row : Row) : 0 ∉ line row := by
  have hsep : (0 : Byte) ≠ ch ';' ∧ (0 : Byte) ≠ lf := by decide
  rw [line_eq, List.mem_append, List.mem_singleton, not_or]
  refine ⟨fun hmem => ?_, hsep.2⟩
  rcases Tokens.mem_joined hmem with hmem | ⟨text, htext, hmem⟩
  · exact hsep.1 hmem
  · obtain ⟨name, -, rfl⟩ := List.mem_map.mp htext
    exact zero_notMem_cstr _ hmem

theorem zero_notMem_sentLines (rows : List Row) : 0 ∉ sentLines rows := by
  have hheader : 0 ∉ header := fun hmem => (header_plain hmem).1 rfl
  rw [sentLines, List.mem_filter, List.mem_append, List.mem_flatMap]
  rintro ⟨hmem | ⟨row, -, hmem⟩, -⟩
  · exact hheader hmem
  · exact zero_notMem_line row hmem

/-- What is sent ends with a line end. -/
theorem sentLines_ends (rows : List Row) : ∃ front, sentLines rows = front ++ [lf] := by
  have hfilter (text : Bytes) : (text ++ [lf]).filter (· ≠ cr) = text.filter (· ≠ cr) ++ [lf] := by
    rw [List.filter_append]
    rfl
  rcases List.eq_nil_or_concat rows with rfl | ⟨rows, row, rfl⟩
  · exact ⟨_, by rw [sentLines, List.flatMap_nil, List.append_nil, header_eq, hfilter]⟩
  · refine ⟨(header ++ rows.flatMap line ++ List.intercalate (bytes ";") (recordTexts row)).filter
      (· ≠ cr), ?_⟩
    rw [← hfilter, sentLines]
    simp [line, bytes, lf, List.flatMap_append]

theorem sentLines_append (rows : List Row) (row : Row) (rest : List Row) :
    sentLines (rows ++ row :: rest) =
      sentLines rows ++ ((line row).filter (· ≠ cr) ++ (rest.flatMap line).filter (· ≠ cr)) := by
  simp [sentLines, List.flatMap_append]

theorem count_sentLines (rows : List Row) :
    (sentLines rows).count quote = (rows.flatMap line).count quote := by
  have hcr : decide (quote ≠ cr) = true := by decide
  have hheader : header.count quote = 0 :=
    List.count_eq_zero.mpr fun hmem => (header_plain hmem).2.1 rfl
  rw [sentLines, List.count_filter (p := fun c => decide (c ≠ cr)) hcr, List.count_append,
    hheader, Nat.zero_add]

/-- The first token row of what is sent is the header. -/
theorem tokenize_sentLines (rows : List Row) :
    ∃ rest, QtLogBook.tokenize (sentLines rows) = headerColumns :: rest := by
  have hfilter : header.filter (· ≠ cr) = header :=
    List.filter_eq_self.mpr fun c hc => decide_eq_true (header_plain hc).2.2
  have hscan : Tokens.scan false {} (sentLines rows) =
      Tokens.scan false { rows := [headerColumns] } ((rows.flatMap line).filter (· ≠ cr)) := by
    rw [sentLines, List.filter_append, hfilter, header_eq, List.append_assoc,
      List.singleton_append]
    exact Tokens.scan_line (stands_self headerColumns_plain) (by simp [headerColumns]) rfl rfl _
  obtain ⟨rest, hrest⟩ := Tokens.scan_rows (t := { rows := [headerColumns] }) false
    ((rows.flatMap line).filter (· ≠ cr))
  simp only [QtLogBook.tokenize, hscan]
  split_ifs
  · exact ⟨rest ++ [_], by rw [Tokens.all, ← hrest]; rfl⟩
  · exact ⟨rest ++ [_], by rw [Tokens.all, Tokens.endField, ← hrest]; rfl⟩

/-- Token rows that are finished when the text ends are in the result. -/
theorem mem_tokenize {row : List Bytes} {text : Bytes}
    (h : row ∈ (Tokens.scan false {} text).rows) : row ∈ QtLogBook.tokenize text := by
  simp only [QtLogBook.tokenize]
  split_ifs
  · exact List.mem_append_left _ h
  · exact List.mem_append_left _ h

/-- A row of a record's texts maps the columns to the values. -/
theorem lookup_sentTexts (account : Account) (record : Bytes → Bytes) (rowid : ℤ) {name : Bytes}
    (h : name ∈ fetchColumns) :
    (headerColumns.zip (sentTexts account record rowid)).lookup name = some (record name) := by
  have hne := notMem_fetchColumns
  have hlookup (columns : List Bytes) (hmem : name ∈ columns) :
      (columns.zip (columns.map record ++ [[]])).lookup name = some (record name) := by
    induction columns with
    | nil => exact absurd hmem List.not_mem_nil
    | cons column columns ih =>
      by_cases hcolumn : name = column
      · subst hcolumn
        simp
      · have hbeq : (name == column) = false := by simpa using hcolumn
        simp only [List.map_cons, List.cons_append, List.zip_cons_cons, List.lookup_cons, hbeq]
        exact ih ((List.mem_cons.mp hmem).resolve_left hcolumn)
  have hid : (name == bytes "id") = false := by
    simpa using fun heq : name = bytes "id" => hne.1 (heq ▸ h)
  have huser : (name == bytes "user_id") = false := by
    simpa using fun heq : name = bytes "user_id" => hne.2 (heq ▸ h)
  simp only [headerColumns, sentTexts, List.cons_append, List.zip_cons_cons, List.lookup_cons, hid,
    huser]
  exact hlookup fetchColumns h

/-- A row that maps the columns to the values holds the values one behind the other. -/
theorem row_of_lookup {record : Bytes → Bytes} {row : List Bytes}
    (h : ∀ name ∈ fetchColumns, (headerColumns.zip row).lookup name = some (record name)) :
    ∃ front back, row = front ++ fetchColumns.map record ++ back := by
  have hne := notMem_fetchColumns
  have hnodup : fetchColumns.Nodup := (List.nodup_cons.mp
    (List.nodup_cons.mp headerColumns_nodup.1).2).2
  have hsome : bytes "qsodate" ∈ fetchColumns ∧ bytes "qsodate" ≠ bytes "id" :=
    ⟨List.mem_cons_self, by decide⟩
  have hrow (columns : List Bytes) (hcolumns : columns.Nodup) (row : List Bytes)
      (hlookup : ∀ name ∈ columns, (columns.zip row).lookup name = some (record name)) :
      ∃ back, row = columns.map record ++ back := by
    induction columns generalizing row with
    | nil => exact ⟨row, rfl⟩
    | cons column columns ih =>
      rw [List.nodup_cons] at hcolumns
      cases row with
      | nil => exact absurd (hlookup column List.mem_cons_self) (by simp)
      | cons value row =>
        have hvalue := hlookup column List.mem_cons_self
        rw [List.zip_cons_cons, List.lookup_cons_self, Option.some.injEq] at hvalue
        obtain ⟨back, hback⟩ := ih hcolumns.2 row fun name hname => by
          have hbeq : (name == column) = false := by
            simpa using fun heq : name = column => hcolumns.1 (heq ▸ hname)
          have hnext := hlookup name (List.mem_cons_of_mem _ hname)
          simpa only [List.zip_cons_cons, List.lookup_cons, hbeq] using hnext
        exact ⟨back, by rw [hvalue, hback]; rfl⟩
  cases row with
  | nil => simpa [headerColumns] using h _ hsome.1
  | cons id row =>
    cases row with
    | nil =>
      have hqso := h _ hsome.1
      have hbeq : (bytes "qsodate" == bytes "id") = false := by simpa using hsome.2
      simp [headerColumns, List.lookup_cons, hbeq] at hqso
    | cons user row =>
      obtain ⟨back, hback⟩ := hrow fetchColumns hnodup row fun name hname => by
        have hid : (name == bytes "id") = false := by
          simpa using fun heq : name = bytes "id" => hne.1 (heq ▸ hname)
        have huser : (name == bytes "user_id") = false := by
          simpa using fun heq : name = bytes "user_id" => hne.2 (heq ▸ hname)
        simpa only [headerColumns, List.zip_cons_cons, List.lookup_cons, hid, huser] using
          h name hname
      exact ⟨[id, user], back, by rw [hback]; rfl⟩

/-- Digits and the sign stand for themselves. -/
theorem decimalInt_plain (n : ℤ) : ∀ c ∈ decimalInt n, Tokens.isPlain c := by
  have hdigit (c : Byte) (h : ch '0' ≤ c ∧ c ≤ ch '9') : Tokens.isPlain c := by
    refine Tokens.isPlain_iff.mpr ⟨?_, ?_, ?_, ?_, ?_⟩
    all_goals
      rintro rfl
      exact absurd h (by decide)
  intro c hc
  cases n with
  | ofNat n => exact hdigit c (decimal_mem_range hc)
  | negSucc n =>
    rcases List.mem_cons.mp hc with rfl | hc
    · decide
    · exact hdigit c (decimal_mem_range hc)

/-- The values of a record without bytes that a client cannot send. -/
def Sendable (record : Bytes → Bytes) : Prop :=
  ∀ name ∈ fetchColumns, 0 ∉ record name ∧ cr ∉ record name

instance (record : Bytes → Bytes) : Decidable (Sendable record) :=
  inferInstanceAs (Decidable (∀ _ ∈ _, _))

theorem sentTexts_plain (account : Account) {record : Bytes → Bytes} (hrecord : Sendable record)
    (hclean : Clean record) (rowid : ℤ) :
    ∀ text ∈ sentTexts account record rowid, ∀ c ∈ text, Tokens.isPlain c := by
  intro text htext c hc
  simp only [sentTexts, List.cons_append, List.mem_cons, List.mem_append, List.mem_map,
    List.not_mem_nil, or_false] at htext
  rcases htext with rfl | rfl | ⟨name, hname, rfl⟩ | rfl
  · exact decimalInt_plain rowid c hc
  · exact decimalInt_plain account.id c hc
  · obtain ⟨hquote, hsemi, hlf⟩ := hclean name hname c hc
    have hzero : c ≠ 0 := fun heq => (hrecord name hname).1 (heq ▸ hc)
    have hcr : c ≠ cr := fun heq => (hrecord name hname).2 (heq ▸ hc)
    exact Tokens.isPlain_iff.mpr ⟨hzero, hquote, hsemi, hlf, hcr⟩
  · exact absurd hc List.not_mem_nil

theorem readBack_of_clean {account : Account} {record : Bytes → Bytes} (hrecord : Sendable record)
    (hclean : Clean record) {rowid : ℤ} {rows : List Row} {row : Row}
    (hrow : recordTexts row = sentTexts account record rowid)
    (heven : Even ((rows.flatMap line).count quote)) (after : List Row) :
    ReadBack (sentLines (rows ++ row :: after)) record := by
  have hplain := sentTexts_plain account hrecord hclean rowid
  have hline : (line row).filter (· ≠ cr) =
      Tokens.joined (sentTexts account record rowid) ++ [lf] := by
    have hlf : lf ≠ cr ∧ ch ';' ≠ cr := by decide
    rw [line_eq, hrow, List.filter_eq_self]
    intro c hc
    rw [decide_eq_true_eq]
    rw [List.mem_append, List.mem_singleton] at hc
    rcases hc with hc | rfl
    · rcases Tokens.mem_joined hc with rfl | ⟨text, htext, hc⟩
      · exact hlf.2
      · exact (Tokens.isPlain_iff.mp (hplain text htext c hc)).2.2.2.2
    · exact hlf.1
  obtain ⟨front, hfront⟩ := sentLines_ends rows
  have hzero : 0 ∉ front := fun hmem =>
    zero_notMem_sentLines rows (hfront ▸ List.mem_append_left _ hmem)
  have hbodd : ((front ++ [lf]).count quote).bodd = false := by
    rw [← hfront, count_sentLines]
    have hmod := Nat.mod_two_of_bodd ((rows.flatMap line).count quote)
    rw [Nat.even_iff.mp heven] at hmod
    cases hcount : ((rows.flatMap line).count quote).bodd with
    | false => rfl
    | true => simp [hcount] at hmod
  have hmem := Tokens.mem_scan_rows hzero hbodd (by simp [sentTexts]) hplain
    ((after.flatMap line).filter (· ≠ cr))
  have htext : sentLines (rows ++ row :: after) = front ++ [lf] ++
      (Tokens.joined (sentTexts account record rowid) ++
        lf :: (after.flatMap line).filter (· ≠ cr)) := by
    rw [sentLines_append, hline, hfront]
    simp
  rw [← htext] at hmem
  obtain ⟨rest, hrest⟩ := tokenize_sentLines (rows ++ row :: after)
  have hmem' := hrest ▸ mem_tokenize hmem
  have hne : sentTexts account record rowid ≠ headerColumns := by
    intro heq
    have hlength := congrArg List.length heq
    simp [sentTexts, headerColumns] at hlength
  simp only [ReadBack, hrest, List.tail_cons, List.headD_cons]
  exact ⟨_, (List.mem_cons.mp hmem').resolve_left hne, fun name hname =>
    lookup_sentTexts account record rowid hname⟩

/-- The texts of a record hold the quotes of its values. -/
theorem count_sentTexts (account : Account) (record : Bytes → Bytes) (rowid : ℤ) :
    (sentTexts account record rowid).flatten.count quote =
      (fetchColumns.map record).flatten.count quote := by
  have hrowid : (decimalInt rowid).count quote = 0 := List.count_eq_zero.mpr fun hmem =>
    absurd (decimalInt_plain rowid quote hmem) (by decide)
  have huser : (decimal account.id).count quote = 0 := List.count_eq_zero.mpr fun hmem =>
    absurd (decimalInt_plain account.id quote hmem) (by decide)
  simp [sentTexts, hrowid, huser]

/-- If the other records hold no quotes, a record that is read back is clean. -/
theorem clean_of_readBack {account : Account} {record : Bytes → Bytes} {rowid : ℤ}
    {before after : List Row} {row : Row}
    (hrow : recordTexts row = sentTexts account record rowid)
    (hquote : quote ∉ (before ++ after).flatMap line)
    (h : ReadBack (sentLines (before ++ row :: after)) record) : Clean record := by
  obtain ⟨rest, hrest⟩ := tokenize_sentLines (before ++ row :: after)
  simp only [ReadBack, hrest, List.tail_cons, List.headD_cons] at h
  obtain ⟨found, hfound, hlookup⟩ := h
  obtain ⟨front, back, hvalues⟩ := row_of_lookup hlookup
  have hkept : (fetchColumns.map record).flatten.Sublist
      (Tokens.scan false {} (sentLines (before ++ row :: after))).kept := by
    have hinner : (fetchColumns.map record).flatten.Sublist found.flatten := by
      rw [hvalues]
      exact ((List.sublist_append_right front _).trans (List.sublist_append_left _ back)).flatten
    refine hinner.trans ?_
    have hmem : found ∈ QtLogBook.tokenize (sentLines (before ++ row :: after)) :=
      hrest ▸ List.mem_cons_of_mem _ hfound
    simp only [QtLogBook.tokenize] at hmem
    split_ifs at hmem
    · exact Tokens.sublist_kept hmem
    · exact Tokens.endField_kept ▸ Tokens.sublist_kept hmem
  -- The quotes of the text are those of the record, and at most half of them are kept.
  have htext : (sentLines (before ++ row :: after)).count quote =
      (fetchColumns.map record).flatten.count quote := by
    have hlf : lf ≠ quote := by decide
    have hothers := List.count_eq_zero.mpr hquote
    rw [List.flatMap_append, List.count_append] at hothers
    rw [count_sentLines, List.flatMap_append, List.flatMap_cons, List.count_append,
      List.count_append, line_eq, hrow, List.count_append, Tokens.count_joined, count_sentTexts,
      List.count_singleton, if_neg (by simpa using hlf)]
    omega
  have hhalf := Tokens.scan_count (t := {}) (sentLines (before ++ row :: after))
  have hcount := hkept.count_le quote
  have hnone : (fetchColumns.map record).flatten.count quote = 0 := by
    simp only [Tokens.kept, List.append_nil, List.flatten_nil, List.count_nil] at hhalf
    simp only [Tokens.kept] at hcount
    omega
  have hseparators := Tokens.scan_separators (t := {})
    (List.count_eq_zero.mp (htext.trans hnone)) rfl (by simp [Tokens.kept])
  intro name hname c hc
  have hmem : c ∈ (fetchColumns.map record).flatten :=
    List.mem_flatten.mpr ⟨record name, List.mem_map_of_mem hname, hc⟩
  have hsep := hseparators c (hkept.subset hmem)
  refine ⟨?_, ?_, ?_⟩
  all_goals rintro rfl
  · exact List.count_eq_zero.mp hnone hmem
  · exact absurd hsep (by decide)
  · exact absurd hsep (by decide)

/-! ## Add and fetch -/

/-- The reader of the client is outside of quotes behind the records of the user, and if SQLite may
put a new record between them, behind each of them. -/
def OutsideQuotes (backend : SQLite3 δ) (account : Account) (db : δ) : Prop :=
  let rows := backend.tableRows db logbookTable
  Even (((rows.filter (isOwn account)).flatMap line).count quote) ∧
    ((∃ row ∈ rows, logbookTable.value row (bytes "id") = some (decimal (2 ^ 63 - 1))) →
      ∀ row ∈ rows.filter (isOwn account), Even ((line row).count quote))

instance (account : Account) (db : δ) : Decidable (OutsideQuotes backend account db) :=
  inferInstanceAs (Decidable (_ ∧ ((∃ _ ∈ _, _) → ∀ _ ∈ _, _)))

theorem even_lines {rows : List Row} (h : ∀ row ∈ rows, Even ((line row).count quote)) :
    Even ((rows.flatMap line).count quote) := by
  induction rows with
  | nil => simp
  | cons row rows ih =>
    rw [List.flatMap_cons, List.count_append]
    exact (h row List.mem_cons_self).add (ih fun r hr => h r (List.mem_cons_of_mem _ hr))

/-- The rows behind an answered request to add one record. -/
theorem exists_added_row {tables : List Table} (hlaw : backend.Lawful tables)
    (ht : logbookTable ∈ tables) {account : Account} (hid : account.id < 2 ^ 63)
    {columns : List Bytes} (hcolumns : columns.Perm (bytes "id" :: fetchColumns))
    {record : Bytes → Bytes} (hnew : record (bytes "id") = bytes "-1")
    (hrecord : ∀ name ∈ fetchColumns, 0 ∉ record name)
    (hstore : ∀ column ∈ logbookTable.columns, column.name ∈ fetchColumns →
      backend.store column.type (record column.name) = record column.name)
    {request : Request} (hcontent : request.content = recordBody columns record) {book : LogBook}
    (hbook : Ready book) (db : δ)
    (hok : (addLog backend account request book db {}).2.2.status = .ok) :
    ∃ before row after rowid, backend.tableRows db logbookTable = before ++ after ∧
      backend.tableRows (addLog backend account request book db {}).2.1 logbookTable =
        before ++ row :: after ∧
      isOwn account row = true ∧ recordTexts row = sentTexts account record rowid ∧
      ((∀ row ∈ before ++ after,
        logbookTable.value row (bytes "id") ≠ some (decimal (2 ^ 63 - 1))) → after = []) := by
  obtain ⟨sets, hsets, hdb, hinserted⟩ :=
    addLog_recordBody backend hcolumns hnew hrecord hcontent account book db
  have hstore' : ∀ column ∈ logbookTable.columns, ∀ value, sets[column.name]? = some value →
      backend.store column.type (cstr value) = value := by
    intro column hcolumn value hvalue
    rw [hsets] at hvalue
    split_ifs at hvalue with huser hname
    · have htype := (logbookTable_column.2 column hcolumn).2 huser.symm
      rw [htype, ← Option.some.inj hvalue, cstr_decimal, hlaw.store_integer _ hid]
    · rw [← Option.some.inj hvalue, cstr_of_notMem (hrecord _ hname), hstore column hcolumn hname]
  have hnames := StringMap.AllKeys.toList (p := (· ∈ boundNames)) fun _ _ hvalue => hsets.mem hvalue
  rw [hdb]
  rcases hlaw.insert_cases ht db book.addLogQuery hbook.addLog.1
      fun set hset => (boundNames_ok (hnames set hset)).1 with
    ⟨hfailed, -⟩ | ⟨-, -, before, row, after, hold, hrows, hrow, hlast⟩
  · exact absurd (hfailed.symm.trans (hinserted hok)) Bool.false_ne_true
  · obtain ⟨hown, htexts⟩ := recordTexts_newRow hsets hstore' hrecord hrow
    refine ⟨before, row, after, _, hold, hrows, hown, htexts, fun hfree => hlast ?_ ?_⟩
    · exact fun set hset => (boundNames_ok (hnames set hset)).2.2
    · intro other hother column hcolumn hkey
      rw [(logbookTable_column.2 column hcolumn).1.mp hkey]
      exact hfree other hother

/-- A clean record that is added and answered with 200 is in the text of the next fetch, if the
records that the user had leave the reader outside of quotes; and if they hold no quotes, only a
clean record is. -/
theorem add_fetch {tables : List Table} (hlaw : backend.Lawful tables)
    (ht : logbookTable ∈ tables) {start : δ} {past : List (Event δ)} {state : LogBook × δ}
    (h : Run backend start past state) {account : Account} (hid : account.id < 2 ^ 63)
    {columns : List Bytes} (hcolumns : columns.Perm (bytes "id" :: fetchColumns))
    {record : Bytes → Bytes} (hnew : record (bytes "id") = bytes "-1") (hrecord : Sendable record)
    (hstore : ∀ column ∈ logbookTable.columns, column.name ∈ fetchColumns →
      backend.store column.type (record column.name) = record column.name)
    {add : Request} (hadd : add.uri = bytes "/logbook/add")
    (hcontent : add.content = recordBody columns record) (fetch : Request)
    (hfetch : fetch.uri = bytes "/logbook")
    (hok : (handleRequest backend account add state.1 state.2 {}).2.2.2.status = .ok)
    (hdone : (backend.select (handleRequest backend account add state.1 state.2 {}).2.2.1
      (fetchQuery account none)).1 = true) :
    let added := handleRequest backend account add state.1 state.2 {}
    let text := sentContent (handleRequest backend account fetch added.2.1 added.2.2.1 {}).2.2.2
    (Clean record ∧ OutsideQuotes backend account state.2 → ReadBack text record) ∧
      (quote ∉ ((backend.tableRows state.2 logbookTable).filter (isOwn account)).flatMap line →
        (ReadBack text record ↔ Clean record)) := by
  have hhandled : handleRequest backend account add state.1 state.2 {} =
      (true, addLog backend account add state.1 state.2 {}) :=
    handleRequest_add hadd
  rw [hhandled] at hok
  obtain ⟨before, row, after, rowid, hold, hrows, hown, htexts, hlast⟩ :=
    exists_added_row hlaw ht hid hcolumns hnew (fun name hname => (hrecord name hname).1) hstore
      hcontent (ready_of_run h) state.2 hok
  have hrun := h.next (a := .request account add) rfl rfl rfl
  have hlisted := (fetch_lists hlaw ht hrun account hid fetch none hfetch (by simp) {}).2.2.2 hdone
  have hall : isListed account none = isOwn account := by
    funext r
    simp [isListed]
  have htext : sentContent (handleRequest backend account fetch
      (handleRequest backend account add state.1 state.2 {}).2.1
      (handleRequest backend account add state.1 state.2 {}).2.2.1 {}).2.2.2 =
      sentLines (before.filter (isOwn account) ++ row :: after.filter (isOwn account)) := by
    have hne : header ≠ [] := by
      rw [header_eq]
      simp
    rw [hlisted, hall, hhandled, hrows, List.filter_append, List.filter_cons_of_pos hown,
      sentContent, Reply.toString]
    simp [Reply.setContent, hne, sentLines]
  dsimp only
  rw [htext]
  have hreadBack (hclean : Clean record) (hbefore :
      Even (((before.filter (isOwn account)).flatMap line).count quote)) :
      ReadBack (sentLines (before.filter (isOwn account) ++ row :: after.filter (isOwn account)))
        record := readBack_of_clean hrecord hclean htexts hbefore _
  rw [OutsideQuotes, hold, List.filter_append]
  refine ⟨?_, fun hquote =>
    ⟨clean_of_readBack htexts hquote, fun hclean => hreadBack hclean ?_⟩⟩
  · rintro ⟨hclean, hcount, heach⟩
    refine hreadBack hclean ?_
    by_cases hlargest : ∃ r ∈ before ++ after,
        logbookTable.value r (bytes "id") = some (decimal (2 ^ 63 - 1))
    · exact even_lines fun r hr => heach hlargest r (List.mem_append_left _ hr)
    · rw [hlast fun r hr hvalue => hlargest ⟨r, hr, hvalue⟩] at hcount
      simpa using hcount
  · rw [List.flatMap_append, List.mem_append, not_or] at hquote
    rw [List.count_eq_zero.mpr hquote.1]
    exact Even.zero

/-! ## Two records -/

/-- A record with this place. -/
def placeRecord (qth name : Bytes) : Bytes :=
  if name = bytes "id" then bytes "-1" else if name = bytes "qth" then qth else []

def placeAdd (qth : Bytes) : Request where
  uri := bytes "/logbook/add"
  content := recordBody (bytes "id" :: fetchColumns) (placeRecord qth)

/-- What the user of the record fetches next. -/
def placeFetched (qth : Bytes) (state : LogBook × SampleEngine.Database) : Bytes :=
  let added := handleRequest sampleBackend sampleAccount (placeAdd qth) state.1 state.2 {}
  sentContent (handleRequest sampleBackend sampleAccount { uri := bytes "/logbook" } added.2.1
    added.2.2.1 {}).2.2.2

theorem add_fetch_place : ∃ state, Run sampleBackend sampleDatabase sampleEvents state ∧
    ReadBack (placeFetched (bytes "Brno") state) (placeRecord (bytes "Brno")) := by
  have hready : (System.exec (system sampleBackend sampleDatabase) (fun _ _ => true)
      ({}, sampleDatabase) sampleEvents).any (fun state =>
        let added := handleRequest sampleBackend sampleAccount (placeAdd (bytes "Brno")) state.1
          state.2 {}
        added.2.2.2.status == .ok &&
          (sampleBackend.select added.2.2.1 (fetchQuery sampleAccount none)).1 &&
          OutsideQuotes sampleBackend sampleAccount state.2) = true := by decide +kernel
  obtain ⟨state, hrun, hstate⟩ := System.exists_run_of_exec hready
  simp only [Bool.and_eq_true, beq_iff_eq, decide_eq_true_eq] at hstate
  have hrecord : Sendable (placeRecord (bytes "Brno")) ∧ Clean (placeRecord (bytes "Brno")) := by
    decide +kernel
  exact ⟨state, hrun, (add_fetch sampleBackend_lawful (by decide) hrun (by decide)
    (List.Perm.refl _) rfl hrecord.1 (fun _ _ _ => rfl) rfl rfl { uri := bytes "/logbook" }
    rfl hstate.1.1 hstate.1.2).1 ⟨hrecord.2, hstate.2⟩⟩

/-- The `;` of a place is read as the end of its field. -/
theorem not_readBack_place :
    (handleRequest sampleBackend sampleAccount (placeAdd (bytes "Praha; Brno")) {} sampleDatabase
        {}).2.2.2.status = .ok ∧
      ¬ ReadBack (placeFetched (bytes "Praha; Brno") ({}, sampleDatabase))
        (placeRecord (bytes "Praha; Brno")) := by
  decide +kernel

end Hamlog.Server.LogBook
