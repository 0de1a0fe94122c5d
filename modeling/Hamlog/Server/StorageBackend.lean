import Hamlog.Foundation.Bytes
import Std.Data.TreeMap.Lemmas

/-! # The storage backend

`StorageBackend::Select`, `StorageBackend::Insert` and the SQLite backend, which
turns them into statement texts. SQLite itself is a parameter: an `Engine` runs
a statement text with bound values and shows the rows of a table. What the
documentation of SQLite says about the four kinds of statements is `Lawful`.
-/
namespace Hamlog.Server
open Foundation

/-- `std::map<std::string, std::string>`, in the order of its keys. -/
abbrev StringMap := Std.TreeMap Bytes Bytes compare

namespace StringMap
variable (m : StringMap)

theorem getElem?_insert (key value name : Bytes) :
    (m.insert key value)[name]? = if key = name then some value else m[name]? := by
  rw [Std.TreeMap.getElem?_insert]
  simp only [Std.LawfulEqCmp.compare_eq_iff_eq]

theorem getElem?_erase (key name : Bytes) :
    (m.erase key)[name]? = if key = name then none else m[name]? := by
  rw [Std.TreeMap.getElem?_erase]
  simp only [Std.LawfulEqCmp.compare_eq_iff_eq]

/-- A map that is filled with a value for each of some names. -/
theorem getElem?_foldl_insert (value : Bytes → Bytes) (names : List Bytes) (name : Bytes) :
    (names.foldl (fun m name => m.insert name (value name)) m)[name]? =
      if name ∈ names then some (value name) else m[name]? := by
  induction names generalizing m with
  | nil => simp
  | cons other names ih =>
    rw [List.foldl_cons, ih, getElem?_insert]
    by_cases hother : other = name
    · subst hother
      simp
    · simp [hother, Ne.symm hother]

/-- All keys of the map have a property. -/
def AllKeys (p : Bytes → Prop) : Prop := ∀ name value : Bytes, m[name]? = some value → p name

variable {m} {p : Bytes → Prop}

theorem AllKeys.insert (h : m.AllKeys p) (key : Bytes) (hkey : p key) (value : Bytes) :
    AllKeys (m.insert key value) p := by
  intro name text htext
  rw [getElem?_insert] at htext
  split_ifs at htext with hname
  · exact hname ▸ hkey
  · exact h name text htext

theorem AllKeys.erase (h : m.AllKeys p) (key : Bytes) : AllKeys (m.erase key) p := by
  intro name text htext
  rw [getElem?_erase] at htext
  split_ifs at htext
  exact h name text htext

theorem AllKeys.toList (h : m.AllKeys p) : ∀ cond ∈ m.toList, p cond.1 :=
  fun cond hcond => h cond.1 cond.2 (Std.TreeMap.mem_toList_iff_getElem?_eq_some.mp hcond)

end StringMap

namespace StorageBackend

inductive ColumnType where
  | integer | string | datetime | real
  deriving DecidableEq, Repr

structure Column where
  name : Bytes
  type : ColumnType
  primaryKey : Bool := false
  deriving DecidableEq, Repr

/-- A table as `createTable` is given it. -/
structure Table where
  name : Bytes
  columns : List Column
  deriving DecidableEq, Repr

/-- A row of a table: one value for each column, as `sqlite3_column_text` reads it. -/
abbrev Row := List (Option Bytes)

namespace Table
variable (table : Table)

def names : List Bytes := table.columns.map (·.name)

/-- The value of a column in a row. -/
def value (row : Row) (name : Bytes) : Option Bytes := ((table.names.zip row).lookup name).join

def typeOf (name : Bytes) : ColumnType :=
  ((table.columns.find? (·.name == name)).map (·.type)).getD .string

/-- The value of a column in a row that is built column by column. -/
theorem value_map {table : Table} (hnames : table.names.Nodup) (f : Column → Option Bytes)
    {column : Column} (h : column ∈ table.columns) :
    table.value (table.columns.map f) column.name = f column := by
  unfold value names at *
  generalize table.columns = columns at h hnames
  induction columns with
  | nil => simp at h
  | cons first columns ih =>
    rw [List.map_cons, List.nodup_cons] at hnames
    rcases List.mem_cons.mp h with rfl | h
    · simp
    · have hne : column.name ≠ first.name := fun heq =>
        hnames.1 (heq ▸ List.mem_map_of_mem h)
      have hlookup : (column.name == first.name) = false := by simpa using hne
      simp only [List.map_cons, List.zip_cons_cons, List.lookup_cons, hlookup]
      exact ih h hnames.2

end Table

/-- SQL names are compared without regard to the case of ASCII letters. -/
def lowerCase (c : Byte) : Byte := if ch 'A' ≤ c && c ≤ ch 'Z' then c + 32 else c

def sameName (a b : Bytes) : Bool := a.map lowerCase == b.map lowerCase

theorem sameName_symm {a b : Bytes} (h : sameName a b = true) : sameName b a = true := by
  rw [sameName, beq_iff_eq] at *
  exact h.symm

theorem sameName_trans {a b c : Bytes} (h : sameName a b = true) (h' : sameName b c = true) :
    sameName a c = true := by
  rw [sameName, beq_iff_eq] at *
  exact h.trans h'

/-- A byte that an SQL name may hold without being quoted. -/
def isNameChar (c : Byte) : Bool :=
  (ch 'a' ≤ c && c ≤ ch 'z') || (ch 'A' ≤ c && c ≤ ch 'Z') || (ch '0' ≤ c && c ≤ ch '9') ||
    c == ch '_' || c == ch '$' || 128 ≤ c

/-- A text that SQL reads as one word. -/
def isWord (name : Bytes) : Bool := !name.isEmpty && name.all isNameChar

theorem isNameChar_lowerCase (c : Byte) : isNameChar (lowerCase c) = isNameChar c := by
  unfold lowerCase
  split_ifs with h
  · rw [Bool.and_eq_true, decide_eq_true_eq, decide_eq_true_eq] at h
    have hlower : ch 'a' ≤ c + 32 ∧ c + 32 ≤ ch 'z' := by
      have hch : ch 'A' = 65 ∧ ch 'Z' = 90 ∧ ch 'a' = 97 ∧ ch 'z' = 122 := by decide
      rw [hch.1, hch.2.1] at h
      rw [hch.2.2.1, hch.2.2.2]
      simp only [UInt8.le_iff_toNat_le, UInt8.toNat_add] at h ⊢
      simp at h ⊢
      omega
    simp [isNameChar, h, hlower]
  · rfl

/-- Every spelling of a word is a word. -/
theorem isWord_of_sameName {a b : Bytes} (h : sameName a b = true) (hb : isWord b = true) :
    isWord a = true := by
  have hword (name : Bytes) : isWord (name.map lowerCase) = isWord name := by
    simp [isWord, List.all_map, Function.comp_def, isNameChar_lowerCase]
  rw [sameName, beq_iff_eq] at h
  rw [← hword, h, hword, hb]

structure Select where
  table : Bytes
  what : List Bytes := []
  wheres : StringMap := ∅

def Select.where_ (query : Select) (name value : Bytes) : Select :=
  { query with wheres := query.wheres.insert name value }

def Select.reset (query : Select) : Select := { query with wheres := ∅ }

/-- The row of an `Insert` is a pointer to a map of the responder; it is passed with the query. -/
structure Insert where
  table : Bytes
  wheres : StringMap := ∅

def Insert.where_ (query : Insert) (name value : Bytes) : Insert :=
  { query with wheres := query.wheres.insert name value }

/-! ## Statement texts -/

/-- The conditions behind `WHERE`. -/
def whereText (names : List Bytes) : Bytes :=
  (names.flatMap fun name => bytes " " ++ name ++ bytes "=? AND") ++ bytes " 1;"

def selectText (table : Bytes) (what wheres : List Bytes) : Bytes :=
  let sql := bytes "SELECT "
  let sql :=
    if what.isEmpty then sql ++ bytes "* "
    else (sql ++ what.flatMap (· ++ bytes ",")).dropLast
  let sql := sql ++ bytes " FROM " ++ table
  if wheres.isEmpty then sql ++ bytes ";" else sql ++ bytes " WHERE" ++ whereText wheres

def removeText (table : Bytes) (wheres : List Bytes) : Bytes :=
  bytes "DELETE FROM " ++ table ++ bytes " WHERE" ++ whereText wheres

def insertText (table : Bytes) (names : List Bytes) : Bytes :=
  let sql := bytes "INSERT INTO " ++ table ++ bytes " (" ++ names.flatMap (· ++ bytes ",")
  let sql := sql.dropLast ++ bytes ") VALUES (" ++ names.flatMap fun _ => bytes "?,"
  sql.dropLast ++ bytes ");"

def updateText (table : Bytes) (names wheres : List Bytes) : Bytes :=
  let sql := bytes "UPDATE " ++ table ++ bytes " SET " ++ names.flatMap (· ++ bytes "=?,")
  sql.dropLast ++ bytes " WHERE" ++ whereText wheres

end StorageBackend

open StorageBackend

/-- What running a statement gives: whether its last step was `SQLITE_DONE`, the rows that were
stepped through, and the database behind it. -/
structure Outcome (δ : Type*) where
  done : Bool
  rows : List Row
  db : δ

/-- SQLite over databases of type `δ`. `rows` are the rows of a table in the order of a scan,
`store` is the text a column of a type holds after a text was written to it, and `equals` compares
a column of a type with a bound text. -/
structure Engine (δ : Type*) where
  exec : δ → Bytes → List Bytes → Outcome δ
  lastInsertRowid : δ → ℤ
  rows : δ → Bytes → List Row
  store : ColumnType → Bytes → Bytes
  equals : ColumnType → Option Bytes → Bytes → Bool

/-- The backend: an engine and the configured prefix of all table names. -/
structure SQLite3 (δ : Type*) extends Engine δ where
  tablePrefix : Bytes

namespace SQLite3
variable {δ : Type*} (backend : SQLite3 δ)

/-- `PREP_STMT`, `BIND_STR` and the steps. Texts and values are passed as C strings. -/
def run (db : δ) (sql : Bytes) (values : List Bytes) : Outcome δ :=
  backend.exec db (cstr sql) (values.map cstr)

/-- The texts of a row: a null reads as the empty text. -/
def texts (row : Row) : List Bytes := row.map fun value => cstr (value.getD [])

/-- The result of `select`, the rows it appends to `m_row`, and the database. -/
def select (db : δ) (query : Select) : Bool × List (List Bytes) × δ :=
  let wheres := query.wheres.toList
  let outcome := backend.run db
    (selectText (backend.tablePrefix ++ query.table) query.what (wheres.map (·.1)))
    (wheres.map (·.2))
  (outcome.done, outcome.rows.map texts, outcome.db)

def remove (db : δ) (query : Select) : Bool × δ :=
  let wheres := query.wheres.toList
  let outcome := backend.run db
    (removeText (backend.tablePrefix ++ query.table) (wheres.map (·.1))) (wheres.map (·.2))
  (outcome.done, outcome.db)

def insert (db : δ) (query : Insert) (row : StringMap) : Bool × δ :=
  let columns := row.toList
  let outcome := backend.run db
    (insertText (backend.tablePrefix ++ query.table) (columns.map (·.1))) (columns.map (·.2))
  (outcome.done, outcome.db)

def update (db : δ) (query : Insert) (row : StringMap) : Bool × δ :=
  let columns := row.toList
  let wheres := query.wheres.toList
  let outcome := backend.run db
    (updateText (backend.tablePrefix ++ query.table) (columns.map (·.1)) (wheres.map (·.1)))
    (columns.map (·.2) ++ wheres.map (·.2))
  (outcome.done, outcome.db)

/-- `lastInsertedID`. -/
def lastInsertedID (db : δ) : ℤ := backend.lastInsertRowid db

/-! ## What SQLite documents -/

def tableRows (db : δ) (table : Table) : List Row :=
  backend.rows db (backend.tablePrefix ++ table.name)

/-- A row meets all conditions `name=?`. -/
def satisfies (table : Table) (wheres : List (Bytes × Bytes)) (row : Row) : Bool :=
  wheres.all fun cond =>
    backend.equals (table.typeOf cond.1) (table.value row cond.1) (cstr cond.2)

/-- A condition that the text of a column decides: on a text column, on the primary key, or on an
integer column with the text of a number. The values of other columns are more than their texts. -/
def Filters (table : Table) (cond : Bytes × Bytes) : Prop :=
  ∃ column ∈ table.columns, column.name = cond.1 ∧
    (column.type = .string ∨ column.primaryKey = true ∨
      column.type = .integer ∧ ∃ n : ℕ, cond.2 = decimal n)

/-- The rows that a select with these conditions has to return, with the columns it names or else
all columns. -/
def selected (db : δ) (table : Table) (what : List Bytes) (wheres : List (Bytes × Bytes)) :
    List Row :=
  ((backend.tableRows db table).filter (backend.satisfies table wheres)).map fun row =>
    (if what.isEmpty then table.names else what).map (table.value row)

/-- All tables hold the same rows. -/
def Unchanged (db db' : δ) : Prop := ∀ name, backend.rows db' name = backend.rows db name

/-- Only this table may hold other rows. -/
def Frame (table : Table) (db db' : δ) : Prop :=
  ∀ name, name ≠ backend.tablePrefix ++ table.name → backend.rows db' name = backend.rows db name

/-- The value of a column that is assigned from bound values: one of those that are bound to its
name, or else the value it had. -/
def Assigned (column : Column) (sets : List (Bytes × Bytes)) (old new : Option Bytes) : Prop :=
  (∃ set ∈ sets, sameName set.1 column.name ∧
      new = some (backend.store column.type (cstr set.2))) ∨
    (∀ set ∈ sets, sameName set.1 column.name = false) ∧ new = old

/-- The names of the row identifier, besides that of the primary key. -/
def rowidNames : List Bytes := [bytes "rowid", bytes "oid", bytes "_rowid_"]

/-- No bound value is given to the row identifier, under any of its names. -/
def AutomaticRowid (table : Table) (sets : List (Bytes × Bytes)) : Prop :=
  ∀ set ∈ sets,
    (∀ name ∈ rowidNames, sameName set.1 name = false) ∧
      ∀ column ∈ table.columns, column.primaryKey → sameName set.1 column.name = false

/-- A new row: the primary key is the row identifier. -/
def NewRow (table : Table) (sets : List (Bytes × Bytes)) (rowid : ℤ) (row : Row) : Prop :=
  ∀ column ∈ table.columns,
    if column.primaryKey then table.value row column.name = some (decimalInt rowid)
    else backend.Assigned column sets none (table.value row column.name)

/-- A statement fails without any effect, or it is done and has the effect. -/
def FailsOr (db : δ) (outcome : Outcome δ) (effect : Prop) : Prop :=
  outcome.done = false ∧ backend.Unchanged db outcome.db ∨ outcome.done = true ∧ effect

/-- The documented behaviour of the statements over tables that were created with an integer
primary key. Conditions and results are spelled as the columns were declared; the names in `INSERT`
and `UPDATE` are any words, of which SQLite may reject some. Which rows meet conditions is said of
those that texts decide. -/
structure Lawful (tables : List Table) : Prop where
  /-- A select that ends in an error has returned some of its rows. -/
  select : ∀ {table}, table ∈ tables → ∀ (db : δ) {what wheres},
    (∀ name ∈ what, name ∈ table.names) → (∀ cond ∈ wheres, cond.1 ∈ table.names) →
    let outcome := backend.run db
      (selectText (backend.tablePrefix ++ table.name) what (wheres.map (·.1))) (wheres.map (·.2))
    outcome.db = db ∧ ((∀ cond ∈ wheres, Filters table cond) →
      outcome.rows <+: backend.selected db table what wheres ∧
        (outcome.done = true → outcome.rows = backend.selected db table what wheres))
  remove : ∀ {table}, table ∈ tables → ∀ (db : δ) {wheres},
    (∀ cond ∈ wheres, cond.1 ∈ table.names) →
    let outcome := backend.run db
      (removeText (backend.tablePrefix ++ table.name) (wheres.map (·.1))) (wheres.map (·.2))
    backend.FailsOr db outcome (backend.Frame table db outcome.db ∧
      ((∀ cond ∈ wheres, Filters table cond) → backend.tableRows outcome.db table =
        (backend.tableRows db table).filter fun row => !backend.satisfies table wheres row))
  /-- Rows are in the order of their identifiers, and SQLite takes the next one if there is one. -/
  insert : ∀ {table}, table ∈ tables → ∀ (db : δ) {sets}, (∀ set ∈ sets, isWord set.1) →
    let outcome := backend.run db
      (insertText (backend.tablePrefix ++ table.name) (sets.map (·.1))) (sets.map (·.2))
    backend.FailsOr db outcome (backend.Frame table db outcome.db ∧ ∃ before row after,
      backend.tableRows db table = before ++ after ∧
      backend.tableRows outcome.db table = before ++ row :: after ∧
      backend.NewRow table sets (backend.lastInsertRowid outcome.db) row ∧
      (AutomaticRowid table sets →
        (∀ r ∈ before ++ after, ∀ column ∈ table.columns, column.primaryKey →
          table.value r column.name ≠ some (decimal (2 ^ 63 - 1))) → after = []))
  update : ∀ {table}, table ∈ tables → ∀ (db : δ) {sets wheres}, (∀ set ∈ sets, isWord set.1) →
    (∀ cond ∈ wheres, cond.1 ∈ table.names) →
    let outcome := backend.run db
      (updateText (backend.tablePrefix ++ table.name) (sets.map (·.1)) (wheres.map (·.1)))
      (sets.map (·.2) ++ wheres.map (·.2))
    backend.FailsOr db outcome (backend.Frame table db outcome.db ∧
      ((∀ cond ∈ wheres, Filters table cond) → ∃ f : Row → Row,
        (backend.tableRows outcome.db table).Perm ((backend.tableRows db table).map fun row =>
          if backend.satisfies table wheres row then f row else row) ∧
        ∀ row ∈ backend.tableRows db table, ∀ column ∈ table.columns, column.primaryKey = false →
          backend.Assigned column sets (table.value row column.name)
            (table.value (f row) column.name)))
  equals_string : ∀ value text, backend.equals .string value text ↔ value = some text
  equals_integer : ∀ value n, n < 2 ^ 63 →
    (backend.equals .integer value (decimal n) ↔ value = some (decimal n))
  store_string : ∀ text, backend.store .string text = text
  store_integer : ∀ n, n < 2 ^ 63 → backend.store .integer (decimal n) = decimal n

/-- A name of the row identifier: one of its own, or one of the primary key. -/
def NamesRowid (table : Table) (name : Bytes) : Prop :=
  (∃ other ∈ rowidNames, sameName name other = true) ∨
    ∃ column ∈ table.columns, column.primaryKey = true ∧ sameName name column.name = true

instance (table : Table) (name : Bytes) : Decidable (NamesRowid table name) :=
  inferInstanceAs (Decidable (_ ∨ _))

/-- The value of the primary key behind a statement: one of those that are bound to a name of the
row identifier, or else the value it had. -/
def AssignedRowid (table : Table) (sets : List (Bytes × Bytes)) (old new : Option Bytes) : Prop :=
  (∃ set ∈ sets, NamesRowid table set.1 ∧ new = some (backend.store .integer (cstr set.2))) ∨
    (∀ set ∈ sets, ¬ NamesRowid table set.1) ∧ new = old

/-- What is documented of the row identifier: it is what a statement assigns to it, under any of its
names. -/
structure LawfulRowids (tables : List Table) : Prop extends backend.Lawful tables where
  insert_rowid : ∀ {table}, table ∈ tables → ∀ (db : δ) {sets : List (Bytes × Bytes)},
    (∀ set ∈ sets, isWord set.1) →
    let outcome := backend.run db
      (insertText (backend.tablePrefix ++ table.name) (sets.map (·.1))) (sets.map (·.2))
    outcome.done = true → (∀ set ∈ sets, ¬ NamesRowid table set.1) ∨
      ∃ set ∈ sets, NamesRowid table set.1 ∧
        decimalInt (backend.lastInsertRowid outcome.db) = backend.store .integer (cstr set.2)
  update_rowid : ∀ {table}, table ∈ tables → ∀ (db : δ) {sets wheres},
    (∀ set ∈ sets, isWord set.1) → (∀ cond ∈ wheres, Filters table cond) →
    let outcome := backend.run db
      (updateText (backend.tablePrefix ++ table.name) (sets.map (·.1)) (wheres.map (·.1)))
      (sets.map (·.2) ++ wheres.map (·.2))
    backend.FailsOr db outcome (backend.Frame table db outcome.db ∧ ∃ f : Row → Row,
      (backend.tableRows outcome.db table).Perm ((backend.tableRows db table).map fun row =>
        if backend.satisfies table wheres row then f row else row) ∧
      ∀ row ∈ backend.tableRows db table, ∀ column ∈ table.columns,
        if column.primaryKey then backend.AssignedRowid table sets (table.value row column.name)
          (table.value (f row) column.name)
        else backend.Assigned column sets (table.value row column.name)
          (table.value (f row) column.name))
  equals_rowid : ∀ db, backend.equals .integer (some (decimalInt (backend.lastInsertRowid db)))
    (decimalInt (backend.lastInsertRowid db))

/-! ## The queries -/

variable {backend}

theorem AutomaticRowid.not_namesRowid {table : Table} {sets : List (Bytes × Bytes)}
    (h : AutomaticRowid table sets) : ∀ set ∈ sets, ¬ NamesRowid table set.1 := by
  rintro set hset (⟨other, hother, hname⟩ | ⟨column, hcolumn, hkey, hname⟩)
  · exact absurd (hname.symm.trans ((h set hset).1 other hother)) (by simp)
  · exact absurd (hname.symm.trans ((h set hset).2 column hcolumn hkey)) (by simp)

/-- A row identifier that is not named is kept. -/
theorem AssignedRowid.kept {table : Table} {sets : List (Bytes × Bytes)} {old new : Option Bytes}
    (h : backend.AssignedRowid table sets old new)
    (hnames : ∀ set ∈ sets, ¬ NamesRowid table set.1) : new = old := by
  rcases h with ⟨set, hset, hname, -⟩ | ⟨-, hkept⟩
  · exact absurd hname (hnames set hset)
  · exact hkept

theorem forall_mem_toList {m : StringMap} {P : Bytes → Bytes → Prop} :
    (∀ cond ∈ m.toList, P cond.1 cond.2) ↔ ∀ name value, m[name]? = some value → P name value := by
  constructor
  · intro h name value hvalue
    exact h (name, value) (Std.TreeMap.mem_toList_iff_getElem?_eq_some.mpr hvalue)
  · intro h cond hcond
    exact h cond.1 cond.2 (Std.TreeMap.mem_toList_iff_getElem?_eq_some.mp hcond)

theorem satisfies_toList {table : Table} {m : StringMap} {row : Row} :
    backend.satisfies table m.toList row ↔ ∀ name value, m[name]? = some value →
      backend.equals (table.typeOf name) (table.value row name) (cstr value) := by
  rw [satisfies, List.all_eq_true]
  exact forall_mem_toList (P := fun name value =>
    backend.equals (table.typeOf name) (table.value row name) (cstr value))

theorem Filters.mem_names {table : Table} {cond : Bytes × Bytes} (h : Filters table cond) :
    cond.1 ∈ table.names := by
  obtain ⟨column, hcolumn, hname, -⟩ := h
  exact hname ▸ List.mem_map_of_mem hcolumn

/-- A select leaves the database as it is and returns rows that meet its conditions; without an
error it returns all of them. -/
theorem Lawful.select_rows {tables : List Table} (h : backend.Lawful tables) {table : Table}
    (ht : table ∈ tables) (db : δ) (query : Select) (hquery : query.table = table.name)
    (hwhat : ∀ name ∈ query.what, name ∈ table.names)
    (hwheres : ∀ name value, query.wheres[name]? = some value → Filters table (name, value)) :
    (backend.select db query).2.2 = db ∧
      (backend.select db query).2.1 <+:
        (backend.selected db table query.what query.wheres.toList).map texts ∧
      ((backend.select db query).1 = true → (backend.select db query).2.1 =
        (backend.selected db table query.what query.wheres.toList).map texts) := by
  have hfilters : ∀ cond ∈ query.wheres.toList, Filters table cond :=
    forall_mem_toList (P := fun name value => Filters table (name, value)) |>.mpr hwheres
  obtain ⟨hdb, hselected⟩ := h.select ht db hwhat fun cond hcond => (hfilters cond hcond).mem_names
  obtain ⟨hrows, hdone⟩ := hselected hfilters
  rw [← hquery] at hdb hrows hdone
  exact ⟨hdb, hrows.map texts, fun hd => congrArg (List.map texts) (hdone hd)⟩

/-- What an insert can do: fail without any effect, or add a row. -/
theorem Lawful.insert_cases {tables : List Table} (h : backend.Lawful tables) {table : Table}
    (ht : table ∈ tables) (db : δ) (query : Insert) (hquery : query.table = table.name)
    {record : StringMap} (hwords : ∀ set ∈ record.toList, isWord set.1) :
    let inserted := backend.insert db query record
    inserted.1 = false ∧ backend.Unchanged db inserted.2 ∨
      inserted.1 = true ∧ backend.Frame table db inserted.2 ∧ ∃ before row after,
        backend.tableRows db table = before ++ after ∧
        backend.tableRows inserted.2 table = before ++ row :: after ∧
        backend.NewRow table record.toList (backend.lastInsertRowid inserted.2) row ∧
        (AutomaticRowid table record.toList →
          (∀ r ∈ before ++ after, ∀ column ∈ table.columns, column.primaryKey →
            table.value r column.name ≠ some (decimal (2 ^ 63 - 1))) → after = []) := by
  have hinsert := h.insert ht db hwords
  rw [← hquery] at hinsert
  exact hinsert

theorem Lawful.update_cases {tables : List Table} (h : backend.Lawful tables) {table : Table}
    (ht : table ∈ tables) (db : δ) (query : Insert) (hquery : query.table = table.name)
    {record : StringMap} (hwords : ∀ set ∈ record.toList, isWord set.1)
    (hnames : ∀ cond ∈ query.wheres.toList, cond.1 ∈ table.names) :
    let updated := backend.update db query record
    updated.1 = false ∧ backend.Unchanged db updated.2 ∨
      updated.1 = true ∧ backend.Frame table db updated.2 ∧
        ((∀ cond ∈ query.wheres.toList, Filters table cond) → ∃ f : Row → Row,
          (backend.tableRows updated.2 table).Perm ((backend.tableRows db table).map fun row =>
            if backend.satisfies table query.wheres.toList row then f row else row) ∧
          ∀ row ∈ backend.tableRows db table, ∀ column ∈ table.columns,
            column.primaryKey = false → backend.Assigned column record.toList
              (table.value row column.name) (table.value (f row) column.name)) := by
  have hupdate := h.update ht db hwords hnames
  rw [← hquery] at hupdate
  exact hupdate

theorem Lawful.remove_cases {tables : List Table} (h : backend.Lawful tables) {table : Table}
    (ht : table ∈ tables) (db : δ) (query : Select) (hquery : query.table = table.name)
    (hnames : ∀ cond ∈ query.wheres.toList, cond.1 ∈ table.names) :
    let removed := backend.remove db query
    removed.1 = false ∧ backend.Unchanged db removed.2 ∨
      removed.1 = true ∧ backend.Frame table db removed.2 ∧
        ((∀ cond ∈ query.wheres.toList, Filters table cond) →
          backend.tableRows removed.2 table = (backend.tableRows db table).filter fun row =>
            !backend.satisfies table query.wheres.toList row) := by
  have hremove := h.remove ht db hnames
  rw [← hquery] at hremove
  exact hremove

/-- What an update can do to the rows when also the row identifier is known. -/
theorem LawfulRowids.update_cases {tables : List Table} (h : backend.LawfulRowids tables)
    {table : Table} (ht : table ∈ tables) (db : δ) (query : Insert)
    (hquery : query.table = table.name) {record : StringMap}
    (hwords : ∀ set ∈ record.toList, isWord set.1)
    (hfilters : ∀ cond ∈ query.wheres.toList, Filters table cond) :
    let updated := backend.update db query record
    updated.1 = false ∧ backend.Unchanged db updated.2 ∨
      updated.1 = true ∧ backend.Frame table db updated.2 ∧ ∃ f : Row → Row,
        (backend.tableRows updated.2 table).Perm ((backend.tableRows db table).map fun row =>
          if backend.satisfies table query.wheres.toList row then f row else row) ∧
        ∀ row ∈ backend.tableRows db table, ∀ column ∈ table.columns,
          if column.primaryKey then backend.AssignedRowid table record.toList
            (table.value row column.name) (table.value (f row) column.name)
          else backend.Assigned column record.toList (table.value row column.name)
            (table.value (f row) column.name) := by
  have hupdate := h.update_rowid ht db hwords hfilters
  rw [← hquery] at hupdate
  exact hupdate

end SQLite3
end Hamlog.Server
