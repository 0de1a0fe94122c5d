import Hamlog.Server.StorageBackend

/-! # A small SQL engine

An engine for the four kinds of statements that the backend prints. It takes a
text apart into its words, prints the statement it believes to have read and
refuses every text that differs. It shows that the documented laws can be met,
and concrete runs are made on it.
-/
namespace Hamlog.Server
open Foundation StorageBackend

namespace SampleEngine

/-! ## Words -/

def flush (word : Bytes) : List Bytes := if word.isEmpty then [] else [word]

/-- The maximal runs of name characters; `word` is the run that is being read. -/
def wordsFrom : Bytes → Bytes → List Bytes
  | word, [] => flush word
  | word, c :: text =>
    if isNameChar c then wordsFrom (word ++ [c]) text else flush word ++ wordsFrom [] text

def words (text : Bytes) : List Bytes := wordsFrom [] text

theorem wordsFrom_append (word : Bytes) {name : Bytes} (h : name.all isNameChar = true)
    (text : Bytes) :
    wordsFrom word (name ++ text) = wordsFrom (word ++ name) text := by
  induction name generalizing word with
  | nil => simp
  | cons c name ih =>
    rw [List.all_cons, Bool.and_eq_true] at h
    rw [List.cons_append, wordsFrom, if_pos h.1, ih _ h.2, List.append_assoc, List.singleton_append]

theorem wordsFrom_split {word front : Bytes} {c : Byte} (h : isNameChar c = false) (text : Bytes) :
    wordsFrom word (front ++ c :: text) = wordsFrom word front ++ words text := by
  induction front generalizing word with
  | nil => simp [wordsFrom, h, words]
  | cons d front ih =>
    rw [List.cons_append, wordsFrom, wordsFrom, ih, ih, ← List.append_assoc]
    split_ifs <;> rfl

/-- A text that begins with a separator, if with anything. -/
def begins (text : Bytes) : Bool := text.head?.all fun c => !isNameChar c

/-- A text that ends with a separator, if with anything. -/
def ends (text : Bytes) : Bool := text.getLast?.all fun c => !isNameChar c

theorem words_append_begins (front : Bytes) {text : Bytes} (h : begins text) :
    words (front ++ text) = words front ++ words text := by
  cases text with
  | nil => simp [words, wordsFrom, flush]
  | cons c text =>
    have hc : isNameChar c = false := by simpa [begins] using h
    have hcons : words (c :: text) = words text := by simp [words, wordsFrom, hc, flush]
    rw [words, wordsFrom_split hc, hcons]
    rfl

theorem words_append_ends {front : Bytes} (h : ends front) (text : Bytes) :
    words (front ++ text) = words front ++ words text := by
  rcases List.eq_nil_or_concat front with rfl | ⟨front, c, rfl⟩
  · rfl
  · have hc : isNameChar c = false := by simpa [ends] using h
    have hfront : words (front ++ [c]) = words front := by
      rw [words, wordsFrom_split hc]
      simp [words, wordsFrom, flush]
    rw [List.concat_eq_append, hfront, List.append_assoc, List.singleton_append, words,
      wordsFrom_split hc]
    rfl

/-- The last character of a text that ends with a separator is erased. -/
theorem words_dropLast {text : Bytes} (h : ends text) : words text.dropLast = words text := by
  rcases List.eq_nil_or_concat text with rfl | ⟨front, c, rfl⟩
  · rfl
  · have hc : isNameChar c = false := by simpa [ends] using h
    have hsep : words [c] = [] := by simp [words, wordsFrom, hc, flush]
    rw [List.concat_eq_append, List.dropLast_concat,
      words_append_begins front (by simp [begins, hc]), hsep, List.append_nil]

theorem ends_append {front text : Bytes} (hfront : ends front) (htext : ends text) :
    ends (front ++ text) := by
  rw [ends, List.getLast?_append]
  cases hlast : text.getLast? with
  | none => exact hfront
  | some d => simpa [ends, hlast] using htext

theorem ends_append_of_ne_nil (front : Bytes) {text : Bytes} (hne : text ≠ []) (h : ends text) :
    ends (front ++ text) := by
  rwa [ends, List.getLast?_append_of_ne_nil _ hne]

theorem words_word {name : Bytes} (h : isWord name = true) : words name = [name] := by
  rw [isWord, Bool.and_eq_true] at h
  have happend := wordsFrom_append [] h.2 []
  rw [List.append_nil, List.nil_append] at happend
  have hne : name.isEmpty = false := by simpa using h.1
  rw [words, happend, wordsFrom, flush, hne]
  rfl

/-- Names that are each followed by the same separators. -/
theorem words_flatMap {names : List Bytes} (hnames : ∀ name ∈ names, isWord name)
    (tail : Bytes) (hbegins : begins tail) (hends : ends tail) (hne : tail ≠ []) (htail : words tail = []) :
    words (names.flatMap (· ++ tail)) = names ∧ ends (names.flatMap (· ++ tail)) := by
  induction names with
  | nil => exact ⟨rfl, rfl⟩
  | cons name names ih =>
    have hih := ih fun n hn => hnames n (List.mem_cons_of_mem _ hn)
    have hend := ends_append_of_ne_nil name hne hends
    rw [List.flatMap_cons, words_append_ends hend, words_append_begins name hbegins,
      words_word (hnames name List.mem_cons_self), hih.1, htail]
    exact ⟨rfl, ends_append hend hih.2⟩

/-! ## The words of the four statements -/

theorem words_whereText {names : List Bytes} (h : ∀ name ∈ names, isWord name) :
    words (whereText names) = names.flatMap (fun name => [name, bytes "AND"]) ++ [bytes "1"] ∧
      begins (whereText names) := by
  induction names with
  | nil => decide
  | cons name names ih =>
    obtain ⟨hwords, hbegins⟩ := ih fun n hn => h n (List.mem_cons_of_mem _ hn)
    have hsplit : whereText (name :: names) =
        bytes " " ++ (name ++ (bytes "=? AND" ++ whereText names)) := by
      simp [whereText]
    have hconst : words (bytes " ") = [] ∧ words (bytes "=? AND") = [bytes "AND"] := by decide
    rw [hsplit, words_append_ends (by decide), words_append_begins name rfl,
      words_word (h name List.mem_cons_self), words_append_begins _ hbegins, hwords, hconst.1,
      hconst.2]
    exact ⟨by simp, rfl⟩

theorem words_selectText {table : Bytes} {what wheres : List Bytes} (htable : isWord table)
    (hwhat : ∀ name ∈ what, isWord name) (hwheres : ∀ name ∈ wheres, isWord name) :
    words (selectText table what wheres) =
      bytes "SELECT" :: (what ++ bytes "FROM" :: table ::
        if wheres.isEmpty then []
        else bytes "WHERE" :: (wheres.flatMap (fun name => [name, bytes "AND"]) ++ [bytes "1"])) := by
  have hcomma := words_flatMap hwhat (bytes ",") rfl rfl (by decide) rfl
  have hfront : words (if what.isEmpty then bytes "SELECT " ++ bytes "* "
      else (bytes "SELECT " ++ what.flatMap (· ++ bytes ",")).dropLast) = bytes "SELECT" :: what := by
    cases what with
    | nil => decide
    | cons name what =>
      have hselect : ends (bytes "SELECT ") ∧ words (bytes "SELECT ") = [bytes "SELECT"] := by
        decide
      rw [List.isEmpty_cons, if_neg (by simp), words_dropLast (ends_append hselect.1 hcomma.2),
        words_append_ends hselect.1, hselect.2, hcomma.1]
      rfl
  have hmiddle (front text : Bytes) (hbegin : begins text) :
      words (front ++ bytes " FROM " ++ table ++ text) =
        words front ++ bytes "FROM" :: table :: words text := by
    have hfrom : words (bytes " FROM ") = [bytes "FROM"] := by decide
    rw [words_append_begins _ hbegin, List.append_assoc front, words_append_begins front rfl,
      words_append_ends (by decide), hfrom, words_word htable]
    simp
  obtain ⟨hw, hb⟩ := words_whereText hwheres
  have hwhere : words (bytes " WHERE") = [bytes "WHERE"] := by decide
  cases hempty : wheres.isEmpty with
  | true =>
    simp only [selectText, hempty, if_true]
    rw [hmiddle _ _ rfl, hfront]
    rfl
  | false =>
    simp only [selectText, hempty, Bool.false_eq_true, if_false]
    rw [List.append_assoc _ (bytes " WHERE"), hmiddle _ _ rfl, hfront, words_append_begins _ hb,
      hwhere, hw]
    rfl

theorem words_removeText {table : Bytes} {wheres : List Bytes} (htable : isWord table)
    (hwheres : ∀ name ∈ wheres, isWord name) :
    words (removeText table wheres) = bytes "DELETE" :: bytes "FROM" :: table :: bytes "WHERE" ::
      (wheres.flatMap (fun name => [name, bytes "AND"]) ++ [bytes "1"]) := by
  obtain ⟨hw, hb⟩ := words_whereText hwheres
  rw [removeText, words_append_begins _ hb, words_append_begins _ rfl,
    words_append_ends (by decide), words_word htable, hw]
  rfl

theorem words_insertText {table : Bytes} {names : List Bytes} (htable : isWord table)
    (hnames : ∀ name ∈ names, isWord name) :
    words (insertText table names) = bytes "INSERT" :: bytes "INTO" :: table ::
      (names ++ [bytes "VALUES"]) := by
  have hcomma := words_flatMap hnames (bytes ",") rfl rfl (by decide) rfl
  have hmarks : ends (names.flatMap fun _ => bytes "?,") ∧
      words (names.flatMap fun _ => bytes "?,") = [] := by
    clear hcomma hnames
    induction names with
    | nil => decide
    | cons name names ih =>
      rw [List.flatMap_cons, words_append_ends (by decide), ih.2]
      exact ⟨ends_append (by decide) ih.1, by decide⟩
  have hopen : ends (bytes "INSERT INTO " ++ table ++ bytes " (") :=
    ends_append_of_ne_nil _ (by decide) (by decide)
  have hvalues (front : Bytes) : ends (front ++ bytes ") VALUES (") :=
    ends_append_of_ne_nil _ (by decide) (by decide)
  have hconst : words (bytes "INSERT INTO ") = [bytes "INSERT", bytes "INTO"] ∧
      words (bytes " (") = [] ∧ words (bytes ") VALUES (") = [bytes "VALUES"] ∧
      words (bytes ");") = [] := by decide
  simp only [insertText]
  rw [words_append_begins _ (by decide), words_dropLast (ends_append (hvalues _) hmarks.1),
    words_append_ends (hvalues _), hmarks.2, words_append_begins _ (by decide),
    words_dropLast (ends_append hopen hcomma.2), words_append_ends hopen, hcomma.1,
    words_append_begins _ (by decide), words_append_ends (by decide), words_word htable]
  simp [hconst]

theorem words_updateText {table : Bytes} {names wheres : List Bytes} (htable : isWord table)
    (hnames : ∀ name ∈ names, isWord name) (hwheres : ∀ name ∈ wheres, isWord name) :
    words (updateText table names wheres) = bytes "UPDATE" :: table :: bytes "SET" ::
      (names ++ bytes "WHERE" ::
        (wheres.flatMap (fun name => [name, bytes "AND"]) ++ [bytes "1"])) := by
  have hmarks := words_flatMap hnames (bytes "=?,") rfl rfl (by decide) rfl
  obtain ⟨hw, hb⟩ := words_whereText hwheres
  have hset : ends (bytes "UPDATE " ++ table ++ bytes " SET ") :=
    ends_append_of_ne_nil _ (by decide) (by decide)
  have hconst : words (bytes "UPDATE ") = [bytes "UPDATE"] ∧
      words (bytes " SET ") = [bytes "SET"] ∧ words (bytes " WHERE") = [bytes "WHERE"] := by decide
  simp only [updateText]
  rw [words_append_begins _ hb, words_append_begins _ (by decide),
    words_dropLast (ends_append hset hmarks.2), words_append_ends hset, hmarks.1,
    words_append_begins _ (by decide), words_append_ends (by decide), words_word htable, hw]
  simp [hconst]

/-! ## Reading a statement -/

inductive Statement where
  | select (table : Bytes) (what wheres : List Bytes)
  | remove (table : Bytes) (wheres : List Bytes)
  | insert (table : Bytes) (names : List Bytes)
  | update (table : Bytes) (names wheres : List Bytes)
  deriving DecidableEq

def Statement.text : Statement → Bytes
  | .select table what wheres => selectText table what wheres
  | .remove table wheres => removeText table wheres
  | .insert table names => insertText table names
  | .update table names wheres => updateText table names wheres

/-- The names in the words behind `WHERE`. -/
def conditionNames : List Bytes → List Bytes
  | name :: _ :: rest => name :: conditionNames rest
  | _ => []

def guessSelect (rest : List Bytes) : Option Statement :=
  match rest.dropWhile (· ≠ bytes "FROM") with
  | _ :: table :: wheres =>
    some (.select table (rest.takeWhile (· ≠ bytes "FROM")) (conditionNames (wheres.drop 1)))
  | _ => none

def guessRemove : List Bytes → Option Statement
  | _ :: table :: _ :: wheres => some (.remove table (conditionNames wheres))
  | _ => none

def guessInsert : List Bytes → Option Statement
  | _ :: table :: names => some (.insert table names.dropLast)
  | _ => none

def guessUpdate : List Bytes → Option Statement
  | table :: _ :: rest =>
    let wheres := (rest.reverse.takeWhile (· ≠ bytes "WHERE")).reverse
    some (.update table (rest.take (rest.length - wheres.length - 1)) (conditionNames wheres))
  | _ => none

/-- The statement that may have these words. -/
def guess : List Bytes → Option Statement
  | [] => none
  | keyword :: rest =>
    if keyword = bytes "SELECT" then guessSelect rest
    else if keyword = bytes "DELETE" then guessRemove rest
    else if keyword = bytes "INSERT" then guessInsert rest
    else if keyword = bytes "UPDATE" then guessUpdate rest
    else none

/-- A text is read as a statement that is printed like it. -/
def read (text : Bytes) : Option Statement :=
  (guess (words text)).filter fun statement => statement.text = text

theorem conditionNames_words (names : List Bytes) :
    conditionNames (names.flatMap (fun name => [name, bytes "AND"]) ++ [bytes "1"]) = names := by
  induction names with
  | nil => rfl
  | cons name names ih => exact congrArg (name :: ·) ih

/-- A word that is none of the two keywords that stand behind a list of names. -/
def isPlain (name : Bytes) : Bool := isWord name && name != bytes "FROM" && name != bytes "WHERE"

theorem isPlain_iff {name : Bytes} :
    isPlain name ↔ isWord name ∧ name ≠ bytes "FROM" ∧ name ≠ bytes "WHERE" := by
  simp [isPlain, and_assoc]

theorem guess_selectText {table : Bytes} {what wheres : List Bytes} (htable : isWord table)
    (hwhat : ∀ name ∈ what, isPlain name) (hwheres : ∀ name ∈ wheres, isPlain name) :
    guess (words (selectText table what wheres)) = some (.select table what wheres) := by
  have hne : ∀ name ∈ what, decide (name ≠ bytes "FROM") = true := fun name h => by
    simpa using (isPlain_iff.mp (hwhat name h)).2.1
  rw [words_selectText htable (fun n h => (isPlain_iff.mp (hwhat n h)).1)
    (fun n h => (isPlain_iff.mp (hwheres n h)).1)]
  have hguess (tail : List Bytes) :
      guess (bytes "SELECT" :: (what ++ bytes "FROM" :: table :: tail)) =
        some (.select table what (conditionNames (tail.drop 1))) := by
    have htake : (what ++ bytes "FROM" :: table :: tail).takeWhile (· ≠ bytes "FROM") = what := by
      rw [List.takeWhile_append_of_pos hne, List.takeWhile_cons_of_neg (by simp), List.append_nil]
    have hdrop : (what ++ bytes "FROM" :: table :: tail).dropWhile (· ≠ bytes "FROM") =
        bytes "FROM" :: table :: tail := by
      rw [List.dropWhile_append_of_pos hne, List.dropWhile_cons_of_neg (by simp)]
    have hkeyword (rest : List Bytes) : guess (bytes "SELECT" :: rest) = guessSelect rest := rfl
    simp only [hkeyword, guessSelect, hdrop, htake]
  rw [hguess]
  cases wheres with
  | nil => rfl
  | cons name wheres =>
    exact congrArg (fun names => some (Statement.select table what names))
      (conditionNames_words (name :: wheres))

theorem guess_removeText {table : Bytes} {wheres : List Bytes} (htable : isWord table)
    (hwheres : ∀ name ∈ wheres, isWord name) :
    guess (words (removeText table wheres)) = some (.remove table wheres) := by
  rw [words_removeText htable hwheres]
  exact congrArg (fun names => some (Statement.remove table names)) (conditionNames_words wheres)

theorem guess_insertText {table : Bytes} {names : List Bytes} (htable : isWord table)
    (hnames : ∀ name ∈ names, isWord name) :
    guess (words (insertText table names)) = some (.insert table names) := by
  rw [words_insertText htable hnames]
  exact congrArg (fun names => some (Statement.insert table names)) List.dropLast_concat

theorem guess_updateText {table : Bytes} {names wheres : List Bytes} (htable : isWord table)
    (hnames : ∀ name ∈ names, isWord name) (hwheres : ∀ name ∈ wheres, isPlain name) :
    guess (words (updateText table names wheres)) = some (.update table names wheres) := by
  rw [words_updateText htable hnames fun n h => (isPlain_iff.mp (hwheres n h)).1]
  let back := wheres.flatMap (fun name => [name, bytes "AND"]) ++ [bytes "1"]
  have hback : ∀ word ∈ back.reverse, decide (word ≠ bytes "WHERE") = true := by
    intro word hword
    have hand : bytes "AND" ≠ bytes "WHERE" ∧ bytes "1" ≠ bytes "WHERE" := by decide
    simp only [back, List.mem_reverse, List.mem_append, List.mem_flatMap, List.mem_cons,
      List.not_mem_nil, or_false] at hword
    rcases hword with ⟨name, hname, rfl | rfl⟩ | rfl
    · simpa using (isPlain_iff.mp (hwheres word hname)).2.2
    · simpa using hand.1
    · simpa using hand.2
  have htake : ((names ++ bytes "WHERE" :: back).reverse.takeWhile
      (· ≠ bytes "WHERE")).reverse = back := by
    rw [List.reverse_append, List.reverse_cons, List.append_assoc,
      List.takeWhile_append_of_pos hback]
    simp
  have hlength : (names ++ bytes "WHERE" :: back).length - back.length - 1 = names.length := by
    simp only [List.length_append, List.length_cons]
    omega
  have hguess (rest : List Bytes) : guess (bytes "UPDATE" :: rest) = guessUpdate rest := rfl
  simp only [hguess, guessUpdate]
  rw [htake, hlength, List.take_left, conditionNames_words]

/-! ## Running a statement -/

/-- The rows of each table, and the identifier of the last inserted row. -/
structure Database where
  rows : Bytes → List Row
  lastRowid : ℤ

def Database.setRows (db : Database) (table : Bytes) (rows : List Row) : Database :=
  { db with rows := fun name => if name = table then rows else db.rows name }

def fail (db : Database) : Outcome Database := ⟨false, [], db⟩

def satisfies (table : Table) (wheres : List (Bytes × Bytes)) (row : Row) : Bool :=
  wheres.all fun cond => table.value row cond.1 == some cond.2

/-- The value bound to a column, under any spelling of its name. -/
def bound (sets : List (Bytes × Bytes)) (column : Column) : Option Bytes :=
  (sets.find? fun set => sameName set.1 column.name).map (·.2)

/-- A column that may be assigned to: a declared one, but not the primary key. -/
def isAssignable (table : Table) (name : Bytes) : Bool :=
  table.columns.any fun column => !column.primaryKey && sameName name column.name

def newRow (table : Table) (sets : List (Bytes × Bytes)) (rowid : ℤ) : Row :=
  table.columns.map fun column =>
    if column.primaryKey then some (decimalInt rowid) else bound sets column

def updatedRow (table : Table) (sets : List (Bytes × Bytes)) (row : Row) : Row :=
  table.columns.map fun column =>
    if column.primaryKey then table.value row column.name
    else (bound sets column).or (table.value row column.name)

def perform (tables : List Table) (db : Database) (values : List Bytes) :
    Statement → Outcome Database
  | .select name what wheres =>
    match tables.find? (·.name == name) with
    | none => fail db
    | some table =>
      let rows := (db.rows name).filter (satisfies table (wheres.zip values))
      let what := if what.isEmpty then table.names else what
      ⟨true, rows.map fun row => what.map (table.value row), db⟩
  | .remove name wheres =>
    match tables.find? (·.name == name) with
    | none => fail db
    | some table =>
      let rows := (db.rows name).filter fun row => !satisfies table (wheres.zip values) row
      ⟨true, [], db.setRows name rows⟩
  | .insert name names =>
    match tables.find? (·.name == name) with
    | none => fail db
    | some table =>
      if names.all (isAssignable table) then
        let rowid := db.lastRowid + 1
        let rows := db.rows name ++ [newRow table (names.zip values) rowid]
        ⟨true, [], { db.setRows name rows with lastRowid := rowid }⟩
      else fail db
  | .update name names wheres =>
    match tables.find? (·.name == name) with
    | none => fail db
    | some table =>
      if names.all (isAssignable table) then
        let sets := names.zip (values.take names.length)
        let wheres := wheres.zip (values.drop names.length)
        let rows := (db.rows name).map fun row =>
          if satisfies table wheres row then updatedRow table sets row else row
        ⟨true, [], db.setRows name rows⟩
      else fail db

def exec (tables : List Table) (db : Database) (sql : Bytes) (values : List Bytes) :
    Outcome Database :=
  match read sql with
  | none => fail db
  | some statement => perform tables db values statement

/-- The engine over the tables that were created, as a backend without a prefix. -/
def backend (tables : List Table) : SQLite3 Database where
  exec := exec tables
  lastInsertRowid db := db.lastRowid
  rows := Database.rows
  store _ text := text
  equals _ value text := value == some text
  tablePrefix := []

/-- Tables whose names are distinct, with columns whose names are distinct plain words. -/
structure WellFormed (tables : List Table) : Prop where
  distinct : (tables.map (·.name)).Nodup
  words : ∀ table ∈ tables, isWord table.name
  columns : ∀ table ∈ tables, table.names.Nodup ∧ ∀ name ∈ table.names, isPlain name

instance (tables : List Table) : Decidable (WellFormed tables) :=
  decidable_of_iff
    ((tables.map (·.name)).Nodup ∧ (∀ table ∈ tables, isWord table.name) ∧
      ∀ table ∈ tables, table.names.Nodup ∧ ∀ name ∈ table.names, isPlain name)
    ⟨fun ⟨a, b, c⟩ => ⟨a, b, c⟩, fun ⟨a, b, c⟩ => ⟨a, b, c⟩⟩

/-! ## The laws -/

theorem WellFormed.find {tables : List Table} (h : WellFormed tables) {table : Table}
    (ht : table ∈ tables) : tables.find? (·.name == table.name) = some table := by
  have hdistinct := h.distinct
  clear h
  induction tables with
  | nil => simp at ht
  | cons first tables ih =>
    rw [List.map_cons, List.nodup_cons] at hdistinct
    rcases List.mem_cons.mp ht with rfl | ht
    · simp
    · have hne : first.name ≠ table.name := fun heq =>
        hdistinct.1 (heq ▸ List.mem_map_of_mem ht)
      rw [List.find?_cons_of_neg (by simpa using hne)]
      exact ih ht hdistinct.2

theorem zero_notMem_of_isWord {name : Bytes} (h : isWord name) : 0 ∉ name := by
  intro hzero
  rw [isWord, Bool.and_eq_true, List.all_eq_true] at h
  exact absurd (h.2 0 hzero) (by decide)

theorem zero_notMem_whereText {names : List Bytes} (h : ∀ name ∈ names, isWord name) :
    0 ∉ whereText names := by
  have hconst : 0 ∉ bytes " " ∧ 0 ∉ bytes "=? AND" ∧ 0 ∉ bytes " 1;" := by decide
  simp only [whereText, List.mem_append, List.mem_flatMap, hconst, or_false, false_or,
    not_exists, not_and]
  exact fun name hname => zero_notMem_of_isWord (h name hname)

/-- The names of a statement are words. -/
def Statement.Words : Statement → Prop
  | .select table what wheres =>
    isWord table ∧ (∀ name ∈ what, isWord name) ∧ ∀ name ∈ wheres, isWord name
  | .remove table wheres => isWord table ∧ ∀ name ∈ wheres, isWord name
  | .insert table names => isWord table ∧ ∀ name ∈ names, isWord name
  | .update table names wheres =>
    isWord table ∧ (∀ name ∈ names, isWord name) ∧ ∀ name ∈ wheres, isWord name

theorem zero_notMem_names {names : List Bytes} (h : ∀ name ∈ names, isWord name) (tail : Bytes)
    (htail : 0 ∉ tail) : 0 ∉ names.flatMap (· ++ tail) := by
  simp only [List.mem_flatMap, List.mem_append, htail, or_false, not_exists, not_and]
  exact fun name hname => zero_notMem_of_isWord (h name hname)

theorem zero_notMem_text {statement : Statement} (h : statement.Words) : 0 ∉ statement.text := by
  have hdrop {text : Bytes} (htext : 0 ∉ text) : 0 ∉ text.dropLast :=
    fun hmem => htext (List.mem_of_mem_dropLast hmem)
  have happend {front text : Bytes} (hfront : 0 ∉ front) (htext : 0 ∉ text) : 0 ∉ front ++ text :=
    fun hmem => (List.mem_append.mp hmem).elim hfront htext
  cases statement with
  | select table what wheres =>
    have htable := zero_notMem_of_isWord h.1
    have hwhere := zero_notMem_whereText h.2.2
    have hwhat := zero_notMem_names h.2.1 (bytes ",") (by decide)
    have hfront : 0 ∉ (if what.isEmpty then bytes "SELECT " ++ bytes "* "
        else (bytes "SELECT " ++ what.flatMap (· ++ bytes ",")).dropLast) := by
      split_ifs
      · decide
      · exact hdrop (happend (by decide) hwhat)
    have hkeyword : 0 ∉ bytes " FROM " := by decide
    have hfrom := happend (happend hfront hkeyword) htable
    simp only [Statement.text, selectText]
    cases wheres.isEmpty with
    | true => exact happend hfrom (by decide)
    | false => exact happend (happend hfrom (by decide)) hwhere
  | remove table wheres =>
    exact happend (happend (happend (by decide) (zero_notMem_of_isWord h.1)) (by decide))
      (zero_notMem_whereText h.2)
  | insert table names =>
    have hmarks : 0 ∉ names.flatMap fun _ => bytes "?," := by
      have hmark : 0 ∉ bytes "?," := by decide
      simp [List.mem_flatMap, hmark]
    have hnames := zero_notMem_names h.2 (bytes ",") (by decide)
    have htable := zero_notMem_of_isWord h.1
    exact happend (hdrop (happend (happend (hdrop (happend (happend (happend (by decide) htable)
      (by decide)) hnames)) (by decide)) hmarks)) (by decide)
  | update table names wheres =>
    have hmarks := zero_notMem_names h.2.1 (bytes "=?,") (by decide)
    have htable := zero_notMem_of_isWord h.1
    exact happend (happend (hdrop (happend (happend (happend (by decide) htable) (by decide))
      hmarks)) (by decide)) (zero_notMem_whereText h.2.2)

/-- A statement of words that is guessed right is read. -/
theorem read_text {statement : Statement} (hwords : statement.Words)
    (hguess : guess (words statement.text) = some statement) :
    read (cstr statement.text) = some statement := by
  rw [cstr_of_notMem (zero_notMem_text hwords), read, hguess, Option.filter_some,
    if_pos (by simp)]

theorem run_text (tables : List Table) (statement : Statement) (hwords : statement.Words)
    (hguess : guess (words statement.text) = some statement) (db : Database)
    (values : List Bytes) :
    (backend tables).run db statement.text values =
      perform tables db (values.map cstr) statement := by
  change exec tables db (cstr statement.text) (values.map cstr) = _
  rw [exec, read_text hwords hguess]

theorem zip_bound (sets : List (Bytes × Bytes)) :
    (sets.map (·.1)).zip ((sets.map (·.2)).map cstr) = sets.map fun set => (set.1, cstr set.2) := by
  rw [List.map_map]
  exact List.zip_map'

theorem satisfies_bound (table : Table) (wheres : List (Bytes × Bytes)) (tables : List Table)
    (row : Row) :
    satisfies table (wheres.map fun cond => (cond.1, cstr cond.2)) row =
      (backend tables).satisfies table wheres row := by
  rw [satisfies, List.all_map]
  rfl

/-- What is bound to a column is bound to one of the spellings of its name. -/
theorem assigned_bound (tables : List Table) (column : Column) (sets : List (Bytes × Bytes))
    (old : Option Bytes) :
    (backend tables).Assigned column sets old
      ((bound (sets.map fun set => (set.1, cstr set.2)) column).or old) := by
  induction sets with
  | nil => exact Or.inr ⟨by simp, rfl⟩
  | cons set sets ih =>
    cases hname : sameName set.1 column.name with
    | true =>
      refine Or.inl ⟨set, List.mem_cons_self, hname, ?_⟩
      simp [bound, hname, backend]
    | false =>
      have hbound : bound ((set :: sets).map fun set => (set.1, cstr set.2)) column =
          bound (sets.map fun set => (set.1, cstr set.2)) column := by
        simp [bound, hname]
      rw [hbound]
      rcases ih with ⟨other, hother, hsame⟩ | ⟨hnone, heq⟩
      · exact Or.inl ⟨other, List.mem_cons_of_mem _ hother, hsame⟩
      · exact Or.inr ⟨by simpa [hname] using hnone, heq⟩

/-- Names that are columns of a table of the engine are plain words. -/
theorem WellFormed.plain {tables : List Table} (h : WellFormed tables) {table : Table}
    (ht : table ∈ tables) {names : List Bytes} (hnames : ∀ name ∈ names, name ∈ table.names) :
    (∀ name ∈ names, isPlain name) ∧ ∀ name ∈ names, isWord name := by
  have hplain : ∀ name ∈ names, isPlain name :=
    fun name hname => (h.columns table ht).2 _ (hnames name hname)
  exact ⟨hplain, fun name hname => (isPlain_iff.mp (hplain name hname)).1⟩

theorem names_of_conds {table : Table} {wheres : List (Bytes × Bytes)}
    (h : ∀ cond ∈ wheres, cond.1 ∈ table.names) :
    ∀ name ∈ wheres.map (·.1), name ∈ table.names := by
  simpa using h

theorem run_select {tables : List Table} (h : WellFormed tables) {table : Table}
    (ht : table ∈ tables) (db : Database) {what : List Bytes} {wheres : List (Bytes × Bytes)}
    (hwhat : ∀ name ∈ what, name ∈ table.names)
    (hwheres : ∀ cond ∈ wheres, cond.1 ∈ table.names) :
    (backend tables).run db (selectText table.name what (wheres.map (·.1))) (wheres.map (·.2)) =
      ⟨true, (backend tables).selected db table what wheres, db⟩ := by
  have hplain := h.plain ht (names_of_conds hwheres)
  have hplain' := h.plain ht hwhat
  have hrun := run_text tables (.select table.name what (wheres.map (·.1)))
    ⟨h.words table ht, hplain'.2, hplain.2⟩
    (guess_selectText (h.words table ht) hplain'.1 hplain.1) db (wheres.map (·.2))
  refine hrun.trans ?_
  rw [perform, h.find ht]
  simp only [zip_bound, SQLite3.selected]
  simp only [funext (satisfies_bound table wheres tables)]
  rfl

theorem frame_setRows (tables : List Table) (db : Database) (table : Table) (rows : List Row) :
    (backend tables).Frame table db (db.setRows table.name rows) ∧
      (backend tables).tableRows (db.setRows table.name rows) table = rows :=
  ⟨fun _ hname => if_neg hname, if_pos rfl⟩

theorem run_remove {tables : List Table} (h : WellFormed tables) {table : Table}
    (ht : table ∈ tables) (db : Database) {wheres : List (Bytes × Bytes)}
    (hwheres : ∀ cond ∈ wheres, cond.1 ∈ table.names) :
    (backend tables).run db (removeText table.name (wheres.map (·.1))) (wheres.map (·.2)) =
      ⟨true, [], db.setRows table.name (((backend tables).tableRows db table).filter fun row =>
        !(backend tables).satisfies table wheres row)⟩ := by
  have hplain := h.plain ht (names_of_conds hwheres)
  have hrun := run_text tables (.remove table.name (wheres.map (·.1)))
    ⟨h.words table ht, hplain.2⟩ (guess_removeText (h.words table ht) hplain.2) db
    (wheres.map (·.2))
  refine hrun.trans ?_
  rw [perform, h.find ht]
  simp only [zip_bound, funext (satisfies_bound table wheres tables)]
  rfl

theorem run_insert {tables : List Table} (h : WellFormed tables) {table : Table}
    (ht : table ∈ tables) (db : Database) {sets : List (Bytes × Bytes)}
    (hsets : ∀ set ∈ sets, isWord set.1) :
    (backend tables).run db (insertText table.name (sets.map (·.1))) (sets.map (·.2)) =
      if (sets.map (·.1)).all (isAssignable table) then
        ⟨true, [], { db.setRows table.name ((backend tables).tableRows db table ++
          [newRow table (sets.map fun set => (set.1, cstr set.2)) (db.lastRowid + 1)]) with
            lastRowid := db.lastRowid + 1 }⟩
      else fail db := by
  have hwords : ∀ name ∈ sets.map (·.1), isWord name := by simpa using hsets
  have hrun := run_text tables (.insert table.name (sets.map (·.1)))
    ⟨h.words table ht, hwords⟩ (guess_insertText (h.words table ht) hwords) db (sets.map (·.2))
  refine hrun.trans ?_
  rw [perform, h.find ht]
  simp only [zip_bound]
  rfl

theorem run_update {tables : List Table} (h : WellFormed tables) {table : Table}
    (ht : table ∈ tables) (db : Database) {sets wheres : List (Bytes × Bytes)}
    (hsets : ∀ set ∈ sets, isWord set.1) (hwheres : ∀ cond ∈ wheres, cond.1 ∈ table.names) :
    (backend tables).run db (updateText table.name (sets.map (·.1)) (wheres.map (·.1)))
        (sets.map (·.2) ++ wheres.map (·.2)) =
      if (sets.map (·.1)).all (isAssignable table) then
        ⟨true, [], db.setRows table.name (((backend tables).tableRows db table).map fun row =>
          if (backend tables).satisfies table wheres row then
            updatedRow table (sets.map fun set => (set.1, cstr set.2)) row
          else row)⟩
      else fail db := by
  have hplain := h.plain ht (names_of_conds hwheres)
  have hwords : ∀ name ∈ sets.map (·.1), isWord name := by simpa using hsets
  have hrun := run_text tables (.update table.name (sets.map (·.1)) (wheres.map (·.1)))
    ⟨h.words table ht, hwords, hplain.2⟩
    (guess_updateText (h.words table ht) hwords hplain.1) db (sets.map (·.2) ++ wheres.map (·.2))
  refine hrun.trans ?_
  have hlength : (sets.map (·.1)).length = ((sets.map (·.2)).map cstr).length := by simp
  rw [perform, h.find ht]
  simp only [List.map_append]
  rw [hlength, List.take_left, List.drop_left, zip_bound, zip_bound]
  simp only [funext (satisfies_bound table wheres tables)]
  rfl

/-- Every new row of the engine is a new row as SQLite documents it. -/
theorem newRow_newRow (tables : List Table) {table : Table} (hnames : table.names.Nodup)
    (sets : List (Bytes × Bytes)) (rowid : ℤ) :
    (backend tables).NewRow table sets rowid
      (newRow table (sets.map fun set => (set.1, cstr set.2)) rowid) := by
  intro column hcolumn
  rw [newRow, Table.value_map hnames _ hcolumn]
  cases column.primaryKey with
  | true => rfl
  | false => simpa using assigned_bound tables column sets none

theorem backend_lawful {tables : List Table} (h : WellFormed tables) :
    (backend tables).Lawful tables where
  select ht db _ _ hwhat hwheres := by
    have hrun := run_select h ht db hwhat hwheres
    refine ⟨congrArg Outcome.db hrun, fun _ => ⟨?_, fun _ => congrArg Outcome.rows hrun⟩⟩
    exact (congrArg Outcome.rows hrun) ▸ List.prefix_rfl
  remove {table} ht db _ hwheres := by
    have hrun := run_remove h ht db hwheres
    refine Or.inr ⟨congrArg Outcome.done hrun, ?_⟩
    rw [show (backend tables).tablePrefix ++ table.name = table.name from rfl, hrun]
    exact ⟨(frame_setRows tables db table _).1, fun _ => (frame_setRows tables db table _).2⟩
  insert {table} ht db sets hsets := by
    have hrun := run_insert h ht db hsets
    simp only [show (backend tables).tablePrefix ++ table.name = table.name from rfl, hrun]
    cases (sets.map (·.1)).all (isAssignable table) with
    | false => exact Or.inl ⟨rfl, fun _ => rfl⟩
    | true =>
      refine Or.inr ⟨rfl, (frame_setRows tables db table _).1, _, _, [], (List.append_nil _).symm,
        (frame_setRows tables db table _).2, ?_, fun _ _ => rfl⟩
      exact newRow_newRow tables (h.columns table ht).1 sets _
  update {table} ht db sets wheres hsets hwheres := by
    have hrun := run_update h ht db hsets hwheres
    simp only [show (backend tables).tablePrefix ++ table.name = table.name from rfl, hrun]
    cases (sets.map (·.1)).all (isAssignable table) with
    | false => exact Or.inl ⟨rfl, fun _ => rfl⟩
    | true =>
      refine Or.inr ⟨rfl, (frame_setRows tables db table _).1, fun _ => ⟨_,
        List.Perm.of_eq (frame_setRows tables db table _).2, fun row _ column hcolumn hkey => ?_⟩⟩
      rw [updatedRow, Table.value_map (h.columns table ht).1 _ hcolumn, hkey]
      exact assigned_bound tables column sets _
  equals_string value text := by simp [backend]
  equals_integer value n _ := by simp [backend]
  store_string _ := rfl
  store_integer _ _ := rfl

/-- No column but the primary key has a name of the row identifier. -/
def PlainColumns (table : Table) : Prop :=
  ∀ column ∈ table.columns, column.primaryKey = false → ¬ SQLite3.NamesRowid table column.name

instance (table : Table) : Decidable (PlainColumns table) :=
  inferInstanceAs (Decidable (∀ _ ∈ _, _ → ¬ _))

/-- The engine takes no name of the row identifier. -/
theorem not_namesRowid_of_assignable {table : Table} (hplain : PlainColumns table)
    {sets : List (Bytes × Bytes)} (h : (sets.map (·.1)).all (isAssignable table) = true) :
    ∀ set ∈ sets, ¬ SQLite3.NamesRowid table set.1 := by
  intro set hset hrowid
  obtain ⟨column, hcolumn, hname⟩ :=
    List.any_eq_true.mp (List.all_eq_true.mp h _ (List.mem_map_of_mem hset))
  rw [Bool.and_eq_true, Bool.not_eq_true'] at hname
  have hsymm := sameName_symm hname.2
  refine hplain column hcolumn hname.1 ?_
  rcases hrowid with ⟨other, hother, hsame⟩ | ⟨key, hkey, hprimary, hsame⟩
  · exact Or.inl ⟨other, hother, sameName_trans hsymm hsame⟩
  · exact Or.inr ⟨key, hkey, hprimary, sameName_trans hsymm hsame⟩

theorem backend_lawfulRowids {tables : List Table} (h : WellFormed tables)
    (hplain : ∀ table ∈ tables, PlainColumns table) : (backend tables).LawfulRowids tables where
  toLawful := backend_lawful h
  insert_rowid {table} ht db sets hsets hdone := by
    have hrun := run_insert h ht db hsets
    simp only [show (backend tables).tablePrefix ++ table.name = table.name from rfl, hrun] at hdone
    split_ifs at hdone with hnames
    · exact Or.inl (not_namesRowid_of_assignable (hplain table ht) hnames)
    · exact absurd hdone (by simp [fail])
  update_rowid {table} ht db sets wheres hsets hwheres := by
    have hrun := run_update h ht db hsets fun cond hcond => (hwheres cond hcond).mem_names
    simp only [show (backend tables).tablePrefix ++ table.name = table.name from rfl, hrun]
    cases hnames : (sets.map (·.1)).all (isAssignable table) with
    | false => exact Or.inl ⟨rfl, fun _ => rfl⟩
    | true =>
      refine Or.inr ⟨rfl, (frame_setRows tables db table _).1, _,
        List.Perm.of_eq (frame_setRows tables db table _).2, fun row _ column hcolumn => ?_⟩
      rw [updatedRow, Table.value_map (h.columns table ht).1 _ hcolumn]
      cases column.primaryKey with
      | true => exact Or.inr ⟨not_namesRowid_of_assignable (hplain table ht) hnames, rfl⟩
      | false => exact assigned_bound tables column sets _
  equals_rowid _ := by simp [backend]

end SampleEngine
end Hamlog.Server
