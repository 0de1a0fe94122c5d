import Hamlog.Server.SampleEngine

/-! # Statements that bind a primary key

A row whose primary key is bound by the statement may meet another row with that
key. SQLite then refuses the statement, and nothing else makes it refuse one that
binds all columns of its table.
-/
namespace Hamlog.Server
open Foundation StorageBackend

namespace SQLite3

/-- A statement binds every column of the table, and the number `n` to the primary key. -/
structure BindsRow (table : Table) (sets : List (Bytes × Bytes)) (key : Column) (n : ℕ) : Prop where
  names : (sets.map (·.1)).Perm table.names
  column : key ∈ table.columns
  primary : key.primaryKey = true
  bound : (key.name, decimal n) ∈ sets
  rowid : n < 2 ^ 63

/-- A row with the number `n` as its primary key. -/
def hasKey (table : Table) (key : Column) (n : ℕ) (row : Row) : Bool :=
  table.value row key.name == some (decimal n)

variable {δ : Type*} (backend : SQLite3 δ)

/-- A row of the bound values. -/
def IsRow (table : Table) (sets : List (Bytes × Bytes)) (row : Row) : Prop :=
  ∀ set ∈ sets, table.value row set.1 = some (backend.store (table.typeOf set.1) (cstr set.2))

/-- A statement fails without effect if it would give two rows one key, and only then. The tables
have one integer primary key and no other unique column. -/
structure LawfulKeys (tables : List Table) : Prop where
  insert : ∀ {table}, table ∈ tables → ∀ (db : δ) {sets key n}, BindsRow table sets key n →
    let outcome := backend.run db
      (insertText (backend.tablePrefix ++ table.name) (sets.map (·.1))) (sets.map (·.2))
    if (backend.tableRows db table).any (hasKey table key n) then
      outcome.done = false ∧ backend.Unchanged db outcome.db
    else outcome.done = true ∧ backend.Frame table db outcome.db ∧ ∃ row,
      backend.IsRow table sets row ∧
      (backend.tableRows outcome.db table).Perm (row :: backend.tableRows db table)
  update : ∀ {table}, table ∈ tables → ∀ (db : δ) {sets key n wheres}, BindsRow table sets key n →
    (∀ cond ∈ wheres, Filters table cond) →
    let outcome := backend.run db
      (updateText (backend.tablePrefix ++ table.name) (sets.map (·.1)) (wheres.map (·.1)))
      (sets.map (·.2) ++ wheres.map (·.2))
    if 2 ≤ (backend.tableRows db table).countP
        (fun row => backend.satisfies table wheres row || hasKey table key n row) then
      outcome.done = false ∧ backend.Unchanged db outcome.db
    else outcome.done = true ∧ backend.Frame table db outcome.db ∧ ∃ f : Row → Row,
      (∀ row ∈ backend.tableRows db table, backend.IsRow table sets (f row)) ∧
      (backend.tableRows outcome.db table).Perm ((backend.tableRows db table).map fun row =>
        if backend.satisfies table wheres row then f row else row)
  store_string : ∀ text, backend.store .string text = text
  store_integer : ∀ n, n < 2 ^ 63 → backend.store .integer (decimal n) = decimal n

end SQLite3

/-! ## An engine with primary keys -/

namespace KeyEngine
open SampleEngine

/-- The row of some values. -/
def boundRow (table : Table) (sets : List (Bytes × Bytes)) : Row :=
  table.columns.map fun column => sets.lookup column.name

/-- Two rows agree in the primary key. -/
def sameKey (table : Table) (row other : Row) : Bool :=
  table.columns.any fun column =>
    column.primaryKey && table.value row column.name == table.value other column.name

def perform (tables : List Table) (db : Database) (values : List Bytes) :
    Statement → Outcome Database
  | .insert name names =>
    match tables.find? (·.name == name) with
    | none => fail db
    | some table =>
      let row := boundRow table (names.zip values)
      if (db.rows name).any (sameKey table row) then fail db
      else ⟨true, [], db.setRows name (row :: db.rows name)⟩
  | .update name names wheres =>
    match tables.find? (·.name == name) with
    | none => fail db
    | some table =>
      let row := boundRow table (names.zip (values.take names.length))
      let selected := SampleEngine.satisfies table (wheres.zip (values.drop names.length))
      if 2 ≤ (db.rows name).countP (fun old => selected old || sameKey table row old) then fail db
      else ⟨true, [], db.setRows name ((db.rows name).map fun old =>
        if selected old then row else old)⟩
  | statement => SampleEngine.perform tables db values statement

def exec (tables : List Table) (db : Database) (sql : Bytes) (values : List Bytes) :
    Outcome Database :=
  match read sql with
  | none => fail db
  | some statement => perform tables db values statement

def backend (tables : List Table) : SQLite3 Database :=
  { SampleEngine.backend tables with exec := exec tables }

theorem run_text (tables : List Table) (statement : Statement) (hwords : statement.Words)
    (hguess : guess (words statement.text) = some statement) (db : Database)
    (values : List Bytes) :
    (backend tables).run db statement.text values =
      perform tables db (values.map cstr) statement := by
  change exec tables db (cstr statement.text) (values.map cstr) = _
  rw [exec, read_text hwords hguess]

/-- A table has no second primary key. -/
def OneKey (table : Table) : Prop :=
  ∀ key ∈ table.columns, ∀ other ∈ table.columns, key.primaryKey → other.primaryKey → key = other

instance (table : Table) : Decidable (OneKey table) :=
  inferInstanceAs (Decidable (∀ _ ∈ _, ∀ _ ∈ _, _))

theorem lookup_of_mem {sets : List (Bytes × Bytes)} (h : (sets.map (·.1)).Nodup)
    {set : Bytes × Bytes} (hset : set ∈ sets) : sets.lookup set.1 = some set.2 := by
  induction sets with
  | nil => simp at hset
  | cons first sets ih =>
    rw [List.map_cons, List.nodup_cons] at h
    rcases List.mem_cons.mp hset with rfl | hset
    · exact List.lookup_cons_self
    · have hne : set.1 ≠ first.1 := fun heq => h.1 (heq ▸ List.mem_map_of_mem hset)
      have hlookup : (set.1 == first.1) = false := by simpa using hne
      rw [List.lookup_cons, hlookup]
      exact ih h.2 hset

section Statements
variable {tables : List Table} (h : WellFormed tables) {table : Table} (ht : table ∈ tables)
  {sets : List (Bytes × Bytes)} {key : Column} {n : ℕ}
  (hbinds : SQLite3.BindsRow table sets key n)
include h ht hbinds

omit h ht in
/-- The row that the engine binds is the row of the bound values. -/
theorem value_boundRow (hnames : table.names.Nodup) {set : Bytes × Bytes} (hset : set ∈ sets) :
    table.value (boundRow table (sets.map fun set => (set.1, cstr set.2))) set.1 =
      some (cstr set.2) := by
  have hmem : set.1 ∈ table.names := hbinds.names.mem_iff.mp (List.mem_map_of_mem hset)
  obtain ⟨column, hcolumn, hname⟩ := List.mem_map.mp hmem
  have hnodup : ((sets.map fun set => (set.1, cstr set.2)).map (·.1)).Nodup := by
    rw [List.map_map]
    exact hbinds.names.nodup_iff.mpr hnames
  have hlookup := lookup_of_mem hnodup
    (List.mem_map_of_mem (f := fun set => (set.1, cstr set.2)) hset)
  rw [← hname, boundRow, Table.value_map hnames _ hcolumn, hname]
  exact hlookup

omit h ht in
theorem sameKey_boundRow (hnames : table.names.Nodup) (hone : OneKey table) (row : Row) :
    sameKey table (boundRow table (sets.map fun set => (set.1, cstr set.2))) row =
      SQLite3.hasKey table key n row := by
  have hvalue := value_boundRow hbinds hnames hbinds.bound
  rw [cstr_decimal] at hvalue
  rw [Bool.eq_iff_iff, sameKey, List.any_eq_true, SQLite3.hasKey, beq_iff_eq]
  simp only [Bool.and_eq_true, beq_iff_eq]
  constructor
  · rintro ⟨column, hcolumn, hprimary, hsame⟩
    obtain rfl := hone column hcolumn key hbinds.column hprimary hbinds.primary
    exact hsame.symm.trans hvalue
  · exact fun hrow => ⟨key, hbinds.column, hbinds.primary, hvalue.trans hrow.symm⟩

theorem bindsRow_words : ∀ name ∈ sets.map (·.1), isWord name = true :=
  (h.plain ht fun _ hname => hbinds.names.mem_iff.mp hname).2

/-- What an insert of a row comes to on the engine. -/
theorem run_insert (hone : OneKey table) (db : Database) :
    (backend tables).run db (insertText table.name (sets.map (·.1))) (sets.map (·.2)) =
      if (db.rows table.name).any (SQLite3.hasKey table key n) then fail db
      else ⟨true, [], db.setRows table.name
        (boundRow table (sets.map fun set => (set.1, cstr set.2)) :: db.rows table.name)⟩ := by
  have hwords := bindsRow_words h ht hbinds
  have hkey := funext (sameKey_boundRow hbinds (h.columns table ht).1 hone)
  have hrun := run_text tables (.insert table.name (sets.map (·.1))) ⟨h.words table ht, hwords⟩
    (guess_insertText (h.words table ht) hwords) db (sets.map (·.2))
  refine hrun.trans ?_
  rw [perform, h.find ht]
  simp only [zip_bound, hkey]

/-- What an update of rows to one row comes to on the engine. -/
theorem run_update (hone : OneKey table) (db : Database) {wheres : List (Bytes × Bytes)}
    (hwheres : ∀ cond ∈ wheres, cond.1 ∈ table.names) :
    (backend tables).run db (updateText table.name (sets.map (·.1)) (wheres.map (·.1)))
        (sets.map (·.2) ++ wheres.map (·.2)) =
      if 2 ≤ (db.rows table.name).countP (fun row =>
          (backend tables).satisfies table wheres row || SQLite3.hasKey table key n row) then
        fail db
      else ⟨true, [], db.setRows table.name ((db.rows table.name).map fun row =>
        if (backend tables).satisfies table wheres row then
          boundRow table (sets.map fun set => (set.1, cstr set.2))
        else row)⟩ := by
  have hplain := h.plain ht (names_of_conds hwheres)
  have hwords := bindsRow_words h ht hbinds
  have hkey := funext (sameKey_boundRow hbinds (h.columns table ht).1 hone)
  have hrun := run_text tables (.update table.name (sets.map (·.1)) (wheres.map (·.1)))
    ⟨h.words table ht, hwords, hplain.2⟩
    (guess_updateText (h.words table ht) hwords hplain.1) db (sets.map (·.2) ++ wheres.map (·.2))
  have hlength : (sets.map (·.1)).length = ((sets.map (·.2)).map cstr).length := by simp
  have hselected : SampleEngine.satisfies table (wheres.map fun cond => (cond.1, cstr cond.2)) =
      (backend tables).satisfies table wheres := funext (satisfies_bound table wheres tables)
  refine hrun.trans ?_
  rw [perform, h.find ht]
  simp only [List.map_append]
  rw [hlength, List.take_left, List.drop_left, zip_bound, zip_bound]
  simp only [hkey, hselected]

end Statements

theorem isRow_boundRow (tables : List Table) {table : Table} {sets : List (Bytes × Bytes)}
    {key : Column} {n : ℕ} (hbinds : SQLite3.BindsRow table sets key n)
    (hnames : table.names.Nodup) :
    (backend tables).IsRow table sets (boundRow table (sets.map fun set => (set.1, cstr set.2))) :=
  fun _ hset => value_boundRow hbinds hnames hset

theorem backend_lawfulKeys {tables : List Table} (h : WellFormed tables)
    (hone : ∀ table ∈ tables, OneKey table) : (backend tables).LawfulKeys tables where
  insert {table} ht db sets key n hbinds := by
    have hrow := isRow_boundRow tables hbinds (h.columns table ht).1
    simp only [show (backend tables).tablePrefix ++ table.name = table.name from rfl,
      run_insert h ht hbinds (hone table ht)]
    change if (db.rows table.name).any (SQLite3.hasKey table key n) = true then _ else _
    split_ifs
    · exact ⟨rfl, fun _ => rfl⟩
    · exact ⟨rfl, (frame_setRows tables db table _).1, _, hrow,
        List.Perm.of_eq (frame_setRows tables db table _).2⟩
  update {table} ht db sets key n wheres hbinds hwheres := by
    have hrow := isRow_boundRow tables hbinds (h.columns table ht).1
    simp only [show (backend tables).tablePrefix ++ table.name = table.name from rfl,
      run_update h ht hbinds (hone table ht) db fun cond hcond => (hwheres cond hcond).mem_names]
    change if 2 ≤ (db.rows table.name).countP _ then _ else _
    split_ifs
    · exact ⟨rfl, fun _ => rfl⟩
    · exact ⟨rfl, (frame_setRows tables db table _).1, fun _ => _, fun _ _ => hrow,
        List.Perm.of_eq (frame_setRows tables db table _).2⟩
  store_string _ := rfl
  store_integer _ _ := rfl

end KeyEngine
end Hamlog.Server
