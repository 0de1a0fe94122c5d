import Hamlog.Foundation.Lines
import Hamlog.Library.Fetches
import Hamlog.Wire.CsvReaders

/-! # Tables between the readers and the writer

A table written with every field between quotes is read back by all three
readers. The merge of two documents reads both, joins their rows and writes the
result with a separator behind each field, which the user interface reads as an
empty column on the right.
-/
namespace Hamlog.Wire
open Foundation Library Server

/-- Lines of texts that stand for the fields of a table. -/
def tableText (texts : List (List Bytes)) : Bytes :=
  texts.flatMap fun line => Tokens.joined line ++ [lf]

theorem scan_tableText {texts table : List (List Bytes)}
    (h : List.Forall₂ (List.Forall₂ Tokens.Stands) texts table) (hne : ∀ row ∈ table, row ≠ [])
    (rows : List (List Bytes)) :
    Tokens.scan false { rows := rows } (tableText texts) = { rows := rows ++ table } := by
  induction h generalizing rows with
  | nil => simp [tableText, Tokens.scan]
  | @cons line row texts table hline _ ih =>
    have hrest := ih (fun other hother => hne other (List.mem_cons_of_mem _ hother))
      (rows ++ [row])
    have hlinene : line ≠ [] := by
      rintro rfl
      exact hne row List.mem_cons_self (List.forall₂_nil_left_iff.mp hline)
    rw [tableText, List.flatMap_cons, List.append_assoc, List.singleton_append,
      Tokens.scan_line hline hlinene rfl rfl]
    simpa [tableText] using hrest

/-- The text of a table of plain fields holds no zero byte and no carriage return. -/
theorem tableText_clean {table : List (List Bytes)}
    (h : ∀ row ∈ table, ∀ field ∈ row, ∀ c ∈ field, Tokens.isPlain c) :
    0 ∉ tableText table ∧ cr ∉ tableText table := by
  have hbyte : ∀ c ∈ tableText table, c = ch ';' ∨ c = lf ∨ Tokens.isPlain c = true := by
    intro c hc
    obtain ⟨row, hrow, hc⟩ := List.mem_flatMap.mp hc
    rcases List.mem_append.mp hc with hc | hc
    · rcases Tokens.mem_joined hc with rfl | ⟨field, hfield, hc⟩
      · exact .inl rfl
      · exact .inr (.inr (h row hrow field hfield c hc))
    · exact .inr (.inl (List.mem_singleton.mp hc))
  have hbad : ∀ c ∈ ([0, cr] : Bytes), c ≠ ch ';' ∧ c ≠ lf ∧ Tokens.isPlain c = false := by decide
  have hnone {c : Byte} (hc : c ∈ ([0, cr] : Bytes)) : c ∉ tableText table := by
    intro hmem
    obtain ⟨hsep, hlf, hplain⟩ := hbad c hc
    rcases hbyte c hmem with h | h | h
    · exact hsep h
    · exact hlf h
    · exact Bool.false_ne_true (hplain.symm.trans h)
  exact ⟨hnone (by simp), hnone (by simp)⟩

/-! ## What the readers return for finished rows -/

section Finished
variable {str : Bytes} {table : List (List Bytes)}

theorem hamCsvParse_finished (h : Tokens.scan false {} str = { rows := table }) (hne : table ≠ [])
    {start : Bytes} (hshort : ∀ row ∈ table, ∀ field ∈ row, field.length < start.length) :
    hamCsvParse start str = some table := by
  have hfits : CsvState.Fits start.length (Tokens.scan false {} str) :=
    h ▸ ⟨hshort, fun _ hmem => absurd hmem List.not_mem_nil, Nat.zero_le _⟩
  have hparse := hamCsvParse_of_fits hfits
  rw [h] at hparse
  exact hparse rfl hne

theorem parse_finished (h : Tokens.scan false {} str = { rows := table }) :
    LogBook.parse str = table ++ [[]] := by
  rw [LogBook.parse, h, Tokens.all]

theorem tokenize_finished (h : Tokens.scan false {} str = { rows := table }) :
    QtLogBook.tokenize str = table ++ [[]] := by
  rw [tokenize_eq, h, if_pos rfl]

end Finished

/-! ## Quoted tables -/

/-- The table with every field between quotes. -/
def quotedTable (table : List (List Bytes)) : Bytes := tableText (table.map (·.map Tokens.quoted))

theorem scan_quotedTable {table : List (List Bytes)} (hzero : StringTable table)
    (hne : ∀ row ∈ table, row ≠ []) :
    Tokens.scan false {} (quotedTable table) = { rows := table } := by
  have hstands : List.Forall₂ (List.Forall₂ Tokens.Stands) (table.map (·.map Tokens.quoted))
      table := by
    rw [List.forall₂_map_left_iff, List.forall₂_same]
    intro row hrow
    rw [List.forall₂_map_left_iff, List.forall₂_same]
    exact fun field hfield => Tokens.stands_quoted (hzero row hrow field hfield)
  exact scan_tableText hstands hne []

/-- All readers read a quoted table back, two of them with an empty row behind it. -/
theorem readers_quotedTable {table : List (List Bytes)} (htable : table ≠ [])
    (hne : ∀ row ∈ table, row ≠ []) (hzero : StringTable table)
    (hshort : ∀ row ∈ table, ∀ field ∈ row, field.length < 65535) :
    (∀ start : Bytes, start.length = 65535 →
      hamCsvParse start (quotedTable table) = some table) ∧
    LogBook.parse (quotedTable table) = table ++ [[]] ∧
    QtLogBook.tokenize (quotedTable table) = table ++ [[]] := by
  have hscan := scan_quotedTable hzero hne
  exact ⟨fun start hstart => hamCsvParse_finished hscan htable (hstart ▸ hshort),
    parse_finished hscan, tokenize_finished hscan⟩

/-- Separators, a line end and quotes inside of fields, and an empty field. -/
theorem readers_quotedTable_separators :
    LogBook.parse (quotedTable [[bytes "a;\n", bytes "\"\""], [[]]]) =
      [[bytes "a;\n", bytes "\"\""], [[]], []] :=
  (readers_quotedTable (by decide) (by decide) (by decide) (by decide)).2.1

/-! ## Documents -/

/-- The fields of the lines of a document. -/
def documentRows (document : Bytes) : List (List Bytes) :=
  (splitLines lf [] document).1.map (·.splitOn (ch ';'))

/-- A text without quotes and carriage returns that ends with a newline and whose fields fit in
the array of `ham_csv_parse`. -/
structure Document (document : Bytes) : Prop where
  noZero : 0 ∉ document
  noQuote : quote ∉ document
  noReturn : cr ∉ document
  closed : document.getLast? = some lf
  short : ∀ row ∈ documentRows document, ∀ field ∈ row, field.length < 65535

instance (document : Bytes) : Decidable (Document document) :=
  decidable_of_iff (0 ∉ document ∧ quote ∉ document ∧ cr ∉ document ∧
      document.getLast? = some lf ∧
      ∀ row ∈ documentRows document, ∀ field ∈ row, field.length < 65535)
    ⟨fun ⟨h0, h1, h2, h3, h4⟩ => ⟨h0, h1, h2, h3, h4⟩,
      fun ⟨h0, h1, h2, h3, h4⟩ => ⟨h0, h1, h2, h3, h4⟩⟩

theorem documentRows_line {line : Bytes} (h : lf ∉ line) (rest : Bytes) :
    documentRows (line ++ lf :: rest) = line.splitOn (ch ';') :: documentRows rest := by
  simp [documentRows, splitLines_line h]

theorem joined_splitOn (line : Bytes) : Tokens.joined (line.splitOn (ch ';')) = line :=
  List.intercalate_splitOn (ch ';')

/-- Without quotes, carriage returns and zeros the fields of a document stand for themselves. -/
theorem isPlain_documentRows {document : Bytes}
    (h : 0 ∉ document ∧ quote ∉ document ∧ cr ∉ document) :
    ∀ row ∈ documentRows document, ∀ field ∈ row, ∀ c ∈ field, Tokens.isPlain c := by
  induction document using lineInduction (e := lf) with
  | unfinished text htext => simp [documentRows, splitLines_of_notMem htext]
  | line line rest hline ih =>
    intro row hrow field hfield
    rw [documentRows_line hline] at hrow
    simp only [List.mem_append, List.mem_cons, not_or] at h
    rcases List.mem_cons.mp hrow with rfl | hrow
    · intro c hc
      obtain ⟨hmem, hsemi⟩ := mem_splitOn hfield hc
      refine Tokens.isPlain_iff.mpr ⟨?_, ?_, hsemi, ?_, ?_⟩
      · exact fun heq => h.1.1 (heq ▸ hmem)
      · exact fun heq => h.2.1.1 (heq ▸ hmem)
      · exact fun heq => hline (heq ▸ hmem)
      · exact fun heq => h.2.2.1 (heq ▸ hmem)
    · exact ih ⟨h.1.2.2, h.2.1.2.2, h.2.2.2.2⟩ row hrow field hfield

/-- A document that ends with a newline is the text of its rows. -/
theorem tableText_documentRows {document : Bytes}
    (h : document = [] ∨ document.getLast? = some lf) :
    tableText (documentRows document) = document := by
  induction document using lineInduction (e := lf) with
  | unfinished text htext =>
    rcases h with rfl | hlast
    · rfl
    · exact absurd (List.mem_of_getLast? hlast) htext
  | line line rest hline ih =>
    have hrest : rest = [] ∨ rest.getLast? = some lf := by
      cases rest with
      | nil => exact Or.inl rfl
      | cons c rest => simpa [List.getLast?_append, List.getLast?_cons_cons] using h
    rw [documentRows_line hline, tableText, List.flatMap_cons, joined_splitOn]
    simpa [tableText] using ih hrest

theorem scan_document {document : Bytes} (h : Document document) :
    Tokens.scan false {} document = { rows := documentRows document } := by
  have hplain := isPlain_documentRows ⟨h.noZero, h.noQuote, h.noReturn⟩
  have hstands : List.Forall₂ (List.Forall₂ Tokens.Stands) (documentRows document)
      (documentRows document) := by
    refine List.forall₂_same.mpr fun row hrow => List.forall₂_same.mpr fun field hfield => ?_
    exact Tokens.stands_plain (hplain row hrow field hfield)
  have hne : ∀ row ∈ documentRows document, row ≠ [] := by
    intro row hrow
    obtain ⟨line, -, rfl⟩ := List.mem_map.mp hrow
    exact List.splitOn_ne_nil _ _
  have hscan := scan_tableText hstands hne []
  rwa [tableText_documentRows (Or.inr h.closed)] at hscan

theorem documentRows_ne_nil {document : Bytes} (h : Document document) :
    documentRows document ≠ [] := by
  intro hnil
  have htext := tableText_documentRows (Or.inr h.closed)
  have hclosed := h.closed
  rw [← htext, hnil] at hclosed
  simp [tableText] at hclosed

theorem hamCsvParse_document {document start : Bytes} (h : Document document)
    (hstart : start.length = 65535) :
    hamCsvParse start document = some (documentRows document) :=
  hamCsvParse_finished (scan_document h) (documentRows_ne_nil h) (hstart ▸ h.short)

/-! ## The merge of two documents -/

theorem mergeLines_eq {firsts seconds : List (List Bytes)} (h : firsts.length = seconds.length) :
    mergeLines firsts seconds = List.zipWith (· ++ ·) firsts seconds := by
  induction firsts generalizing seconds with
  | nil => simp [mergeLines]
  | cons first firsts ih =>
    cases seconds with
    | nil => simp at h
    | cons second seconds =>
      rw [mergeLines, List.zipWith_cons_cons, ih (by simpa using h)]

/-- The header name and the value of a column of a row. -/
def entry (table : List (List Bytes)) (row column : ℕ) : Option (Bytes × Bytes) :=
  (table[0]?.bind (·[column]?)).bind fun name =>
    (table[row]?.bind (·[column]?)).map fun value => (name, value)

theorem entry_eq_some {table : List (List Bytes)} {row column : ℕ} {name value : Bytes} :
    entry table row column = some (name, value) ↔
      (∃ header, table[0]? = some header ∧ header[column]? = some name) ∧
        ∃ fields, table[row]? = some fields ∧ fields[column]? = some value := by
  simp only [entry, Option.bind_eq_some_iff, Option.map_eq_some_iff, Prod.mk.injEq]
  constructor
  · rintro ⟨_, hname, _, hvalue, rfl, rfl⟩
    exact ⟨hname, hvalue⟩
  · rintro ⟨hname, hvalue⟩
    exact ⟨name, hname, value, hvalue, rfl, rfl⟩

/-- The rows that the user interface reads from the merge of two tables. -/
def mergedRows (firsts seconds : List (List Bytes)) : List (List Bytes) :=
  List.zipWith (fun first second => first ++ second ++ [[]]) firsts seconds

section Merged
variable {firsts seconds : List (List Bytes)} (h : firsts.length = seconds.length)
include h

theorem mergedRows_getElem? {i : ℕ} {first : List Bytes} (hfirst : firsts[i]? = some first) :
    ∃ second, seconds[i]? = some second ∧
      (mergedRows firsts seconds ++ [[]])[i]? = some (first ++ second ++ [[]]) := by
  obtain ⟨hlt, -⟩ := List.getElem?_eq_some_iff.mp hfirst
  have hsecond : seconds[i]? = some seconds[i] := List.getElem?_eq_getElem (h ▸ hlt)
  have hrow : (mergedRows firsts seconds)[i]? = some (first ++ seconds[i] ++ [[]]) := by
    rw [mergedRows, List.getElem?_zipWith, hfirst, hsecond]
  exact ⟨_, hsecond, List.getElem?_append_left (List.getElem?_eq_some_iff.mp hrow).1 ▸ hrow⟩

/-- The columns of the first table keep their places. -/
theorem entry_merged_first {row column : ℕ} {name value : Bytes}
    (hentry : entry firsts row column = some (name, value)) :
    entry (mergedRows firsts seconds ++ [[]]) row column = some (name, value) := by
  obtain ⟨⟨header, hheader, hname⟩, fields, hfields, hvalue⟩ := entry_eq_some.mp hentry
  obtain ⟨_, -, hheader⟩ := mergedRows_getElem? h hheader
  obtain ⟨_, -, hfields⟩ := mergedRows_getElem? h hfields
  have hkept {first second : List Bytes} {text : Bytes} (hfirst : first[column]? = some text) :
      (first ++ second)[column]? = some text := by
    rw [List.getElem?_append_left (List.getElem?_eq_some_iff.mp hfirst).1, hfirst]
  exact entry_eq_some.mpr
    ⟨⟨_, hheader, hkept (hkept hname)⟩, _, hfields, hkept (hkept hvalue)⟩

/-- The columns of the second table stand behind those of the first. -/
theorem entry_merged_second {row column width : ℕ} {name value : Bytes}
    (hheader : firsts[0]?.map List.length = some width)
    (hwidth : firsts[row]?.map List.length = some width)
    (hentry : entry seconds row column = some (name, value)) :
    entry (mergedRows firsts seconds ++ [[]]) row (width + column) = some (name, value) := by
  obtain ⟨⟨others, hothers, hname⟩, values, hvalues, hvalue⟩ := entry_eq_some.mp hentry
  obtain ⟨header, hheader, hheaderlength⟩ := Option.map_eq_some_iff.mp hheader
  obtain ⟨fields, hfields, hlength⟩ := Option.map_eq_some_iff.mp hwidth
  obtain ⟨second, hsecond, hheader⟩ := mergedRows_getElem? h hheader
  obtain ⟨last, hlast, hfields⟩ := mergedRows_getElem? h hfields
  obtain rfl := Option.some.inj (hothers.symm.trans hsecond)
  obtain rfl := Option.some.inj (hvalues.symm.trans hlast)
  have hmoved {first second : List Bytes} {text : Bytes} (hfirst : first.length = width)
      (hmem : second[column]? = some text) :
      (first ++ second ++ [[]])[width + column]? = some text := by
    rw [List.append_assoc, List.getElem?_append_right (by omega), hfirst, Nat.add_sub_cancel_left,
      List.getElem?_append_left (List.getElem?_eq_some_iff.mp hmem).1, hmem]
  exact entry_eq_some.mpr
    ⟨⟨_, hheader, hmoved hheaderlength hname⟩, _, hfields, hmoved hlength hvalue⟩

end Merged

/-- The writer and the reader of the user interface, on rows that two documents merge to. -/
theorem tokenize_hamCsvFromList {firsts seconds : List (List Bytes)}
    (h : ∀ table ∈ [firsts, seconds], ∀ row ∈ table, ∀ field ∈ row, ∀ c ∈ field,
      Tokens.isPlain c) :
    QtLogBook.tokenize (hamCsvFromList (List.zipWith (· ++ ·) firsts seconds)) =
      mergedRows firsts seconds ++ [[]] := by
  have hplain : ∀ row ∈ List.zipWith (· ++ ·) firsts seconds, ∀ field ∈ row, ∀ c ∈ field,
      Tokens.isPlain c := by
    intro row hrow field hfield
    rw [← List.map_uncurry_zip_eq_zipWith] at hrow
    obtain ⟨⟨first, second⟩, hpair, rfl⟩ := List.mem_map.mp hrow
    obtain ⟨hfirst, hsecond⟩ := List.of_mem_zip hpair
    rcases List.mem_append.mp hfield with hfield | hfield
    · exact h firsts (by simp) first hfirst field hfield
    · exact h seconds (by simp) second hsecond field hfield
  have hscan := scan_plain_table hplain []
  rw [tokenize_finished hscan, List.nil_append, List.map_zipWith]
  rfl

/-- The merge of two documents with as many lines has the fields of both in each row, an empty one
behind them, and every value under its header name. -/
theorem tokenize_hamCsvMerge {first second : Bytes} (hfirst : Document first)
    (hsecond : Document second)
    (hlines : (documentRows first).length = (documentRows second).length)
    {start₁ start₂ : Bytes} (hstart₁ : start₁.length = 65535) (hstart₂ : start₂.length = 65535) :
    ∃ merged, hamCsvMerge start₁ start₂ first second = some merged ∧
      QtLogBook.tokenize merged = List.zipWith (fun fields others => fields ++ others ++ [[]])
        (documentRows first) (documentRows second) ++ [[]] ∧
      (∀ row column name value, entry (documentRows first) row column = some (name, value) →
        entry (QtLogBook.tokenize merged) row column = some (name, value)) ∧
      ∀ row column width name value,
        (documentRows first)[0]?.map List.length = some width →
        (documentRows first)[row]?.map List.length = some width →
        entry (documentRows second) row column = some (name, value) →
        entry (QtLogBook.tokenize merged) row (width + column) = some (name, value) := by
  have hmerge : hamCsvMerge start₁ start₂ first second =
      some (hamCsvFromList (List.zipWith (· ++ ·) (documentRows first) (documentRows second))) := by
    rw [hamCsvMerge, hamCsvParse_document hfirst hstart₁, hamCsvParse_document hsecond hstart₂,
      Option.bind_some, Option.map_some, mergeLines_eq hlines]
  have hplain : ∀ table ∈ [documentRows first, documentRows second], ∀ row ∈ table,
      ∀ field ∈ row, ∀ c ∈ field, Tokens.isPlain c := by
    simp only [List.mem_cons, List.not_mem_nil, or_false, forall_eq_or_imp, forall_eq]
    exact ⟨isPlain_documentRows ⟨hfirst.noZero, hfirst.noQuote, hfirst.noReturn⟩,
      isPlain_documentRows ⟨hsecond.noZero, hsecond.noQuote, hsecond.noReturn⟩⟩
  have hread := tokenize_hamCsvFromList hplain
  refine ⟨_, hmerge, hread, fun row column name value hentry => ?_,
    fun row column width name value hheader hwidth hentry => ?_⟩
  · exact hread ▸ entry_merged_first hlines hentry
  · exact hread ▸ entry_merged_second hlines hheader hwidth hentry

/-- A call sign and a zone, from two modules. -/
theorem tokenize_hamCsvMerge_call : ∃ merged,
    hamCsvMerge (List.replicate 65535 0) (List.replicate 65535 0) (bytes "call\nOK1A\n")
      (bytes "cq;itu\n15;28\n") = some merged ∧
    QtLogBook.tokenize merged =
      [[bytes "call", bytes "cq", bytes "itu", []], [bytes "OK1A", bytes "15", bytes "28", []],
        []] := by
  have hfirst : Document (bytes "call\nOK1A\n") := by decide
  have hsecond : Document (bytes "cq;itu\n15;28\n") := by decide
  obtain ⟨merged, hmerge, hread, -⟩ := tokenize_hamCsvMerge hfirst hsecond (by decide)
    List.length_replicate List.length_replicate
  exact ⟨merged, hmerge, hread.trans (by decide)⟩

end Hamlog.Wire
