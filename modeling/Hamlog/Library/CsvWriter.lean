import Hamlog.Library.Csv

/-! # The CSV writer of the client library

`ham_csv_from_list` writes a `;` behind every field, the last of a row
included, and `ham_csv_parse` reads an empty field behind it. No table comes
back: the bytes that the writer adds for the rows, the reader would have to
drop, but it only drops quotes, and of those the writer adds none.
-/
namespace Hamlog.Library
open Foundation Wire

/-- The text of a row: each field with a `;` behind it, and a line end. -/
def writtenLine (line : List Bytes) : Bytes :=
  (line.flatMap fun field => cstr field ++ [ch ';']) ++ [lf]

def hamCsvFromList (parsed : List (List Bytes)) : Bytes := parsed.flatMap writtenLine

/-- A table of strings. -/
def StringTable (table : List (List Bytes)) : Prop := ∀ row ∈ table, ∀ field ∈ row, 0 ∉ field

instance (table : List (List Bytes)) : Decidable (StringTable table) :=
  inferInstanceAs (Decidable (∀ row ∈ table, ∀ field ∈ row, 0 ∉ field))

/-- The table is read back from its text, over what the array of the reader holds at the start. -/
def ReadsBack (start : Bytes) (table : List (List Bytes)) : Prop :=
  hamCsvParse start (hamCsvFromList table) = some table

/-! ## What the reader makes of a text, in bytes -/

/-- The bytes of a row with its separators, the line end left out. -/
def rowWeight (row : List Bytes) : ℕ := (row.map fun field => field.length + 1).sum

/-- The bytes of a table with its separators. -/
def tableWeight (table : List (List Bytes)) : ℕ := (table.map fun row => rowWeight row + 1).sum

/-- The bytes of the finished rows, of the fields of the next one, and of the last field. -/
def weight (t : Tokens) : ℕ := tableWeight t.rows + rowWeight t.row + t.field.length

/-- A byte is kept as a byte or as a separator, a line end counts twice, and a quote is dropped. -/
theorem weight_step (t : Tokens) (c : Byte) :
    weight (t.step c) + t.kept.count quote + [c].count quote + t.rows.length =
      weight t + 1 + (t.step c).kept.count quote + (t.step c).rows.length := by
  have hsep : ch ';' ≠ quote ∧ lf ≠ quote ∧ cr ≠ quote := by decide
  unfold Tokens.step
  split_ifs with hopen hclose hsemi hline
  · obtain rfl : c = quote := eq_of_beq (Bool.and_eq_true_iff.mp hopen).2
    simp [weight, Tokens.kept]
    omega
  · obtain rfl : c = quote := eq_of_beq (Bool.and_eq_true_iff.mp hclose).2
    simp [weight, Tokens.kept]
    omega
  · obtain rfl : c = ch ';' := eq_of_beq (Bool.and_eq_true_iff.mp hsemi).2
    rw [Tokens.endField_kept]
    simp [weight, Tokens.endField, rowWeight, hsep.1]
    omega
  · have hc : [c].count quote = 0 := by
      have hends := (Bool.and_eq_true_iff.mp hline).2
      rw [Bool.or_eq_true, beq_iff_eq, beq_iff_eq] at hends
      rcases hends with rfl | rfl <;> simp [hsep]
    rw [Tokens.endRow_kept, hc]
    simp [weight, Tokens.endRow, rowWeight, tableWeight]
    omega
  · rw [Tokens.pushChar_kept, List.count_append]
    simp [weight, Tokens.pushChar]
    omega

theorem weight_scan (skip : Bool) (t : Tokens) {str : Bytes} (hzero : 0 ∉ str)
    (hskip : skip = true → str.head? = some quote) :
    weight (Tokens.scan skip t str) + t.kept.count quote +
        (if skip then str.tail else str).count quote + t.rows.length =
      weight t + (if skip then str.tail else str).length +
        (Tokens.scan skip t str).kept.count quote + (Tokens.scan skip t str).rows.length := by
  induction str generalizing skip t with
  | nil => cases skip <;> simp [Tokens.scan]
  | cons c str ih =>
    rw [List.mem_cons, not_or] at hzero
    cases skip with
    | true => exact ih false t hzero.2 (by simp)
    | false =>
      have hstep := ih false (t.step c) hzero.2 (by simp)
      have hpush := ih true (t.pushChar c) hzero.2
      have hone := weight_step t c
      rw [Tokens.scan, if_neg (Ne.symm hzero.1)]
      simp only [Bool.false_eq_true, if_false, if_true] at hstep hpush ⊢
      have hcons : (c :: str).count quote = [c].count quote + str.count quote := by
        rw [← List.count_append, List.singleton_append]
      split_ifs with hpair
      · simp only [Bool.and_eq_true, beq_iff_eq] at hpair
        obtain ⟨⟨-, rfl⟩, hhead⟩ := hpair
        obtain ⟨rest, rfl⟩ := List.head?_eq_some_iff.mp hhead
        have hweight : weight (t.pushChar quote) = weight t + 1 := by
          simp [weight, Tokens.pushChar]
          omega
        have hrows : (t.pushChar quote).rows = t.rows := rfl
        have hrest := hpush (fun _ => rfl)
        rw [Tokens.pushChar_kept, List.count_append, List.count_singleton_self, hweight, hrows,
          List.tail_cons] at hrest
        rw [List.count_cons_self, List.count_cons_self, List.length_cons, List.length_cons]
        omega
      · rw [hcons, List.length_cons]
        omega

/-! ## Tables and their texts -/

theorem length_writtenLine {line : List Bytes} (h : ∀ field ∈ line, 0 ∉ field) :
    (writtenLine line).length = rowWeight line + 1 := by
  rw [writtenLine, List.length_append, List.length_flatMap, rowWeight, List.length_singleton]
  congr 2
  refine List.map_congr_left fun field hfield => ?_
  rw [cstr_of_notMem (h field hfield), List.length_append, List.length_singleton]

theorem length_hamCsvFromList {table : List (List Bytes)} (h : StringTable table) :
    (hamCsvFromList table).length = tableWeight table := by
  rw [hamCsvFromList, List.length_flatMap, tableWeight]
  exact congrArg List.sum (List.map_congr_left fun row hrow => length_writtenLine (h row hrow))

/-- The writer adds no quotes. -/
theorem count_hamCsvFromList {table : List (List Bytes)} (h : StringTable table) :
    (hamCsvFromList table).count quote = table.flatten.flatten.count quote := by
  have hsep : ch ';' ≠ quote ∧ lf ≠ quote := by decide
  have hline {line : List Bytes} (hline : ∀ field ∈ line, 0 ∉ field) :
      (writtenLine line).count quote = line.flatten.count quote := by
    induction line with
    | nil => simp [writtenLine, hsep]
    | cons field line ih =>
      have hrest := ih fun other hother => hline other (List.mem_cons_of_mem _ hother)
      simp only [writtenLine, List.count_append] at hrest ⊢
      rw [List.flatMap_cons, List.flatten_cons, List.count_append, List.count_append,
        List.count_append, cstr_of_notMem (hline field List.mem_cons_self),
        List.count_singleton, if_neg (by simpa using hsep.1)]
      omega
  induction table with
  | nil => rfl
  | cons row table ih =>
    rw [hamCsvFromList, List.flatMap_cons, List.count_append, hline (h row List.mem_cons_self),
      List.flatten_cons, List.flatten_append, List.count_append]
    exact congrArg _ (ih fun other hother => h other (List.mem_cons_of_mem _ hother))

theorem zero_notMem_hamCsvFromList (table : List (List Bytes)) : 0 ∉ hamCsvFromList table := by
  have hsep : (0 : Byte) ≠ ch ';' ∧ (0 : Byte) ≠ lf := by decide
  simp [hamCsvFromList, writtenLine, hsep, zero_notMem_cstr]

/-- The last line end either is part of a field or finishes the last row. -/
theorem scan_hamCsvFromList {table : List (List Bytes)} (hne : table ≠ []) :
    (Tokens.scan false {} (hamCsvFromList table)).field ≠ [] ∨
      (Tokens.scan false {} (hamCsvFromList table)).rows ≠ [] ∧
      (Tokens.scan false {} (hamCsvFromList table)).row = [] ∧
      (Tokens.scan false {} (hamCsvFromList table)).field = [] := by
  have hsep : lf ≠ 0 ∧ lf ≠ quote ∧ lf ≠ ch ';' := by decide
  have hend : ∃ front, hamCsvFromList table = front ++ [lf] := by
    obtain ⟨rows, row, rfl⟩ := (List.eq_nil_or_concat table).resolve_left hne
    rw [List.concat_eq_append, hamCsvFromList, List.flatMap_append, List.flatMap_singleton,
      writtenLine, ← List.append_assoc]
    exact ⟨_, rfl⟩
  obtain ⟨front, hfront⟩ := hend
  have hzero := zero_notMem_hamCsvFromList table
  rw [hfront, List.mem_append, not_or] at hzero
  rw [hfront, Tokens.scan_append hzero.1 (by simpa using hsep.2.1)]
  have hlast (u : Tokens) : Tokens.scan false u [lf] = u.step lf := by
    rw [Tokens.scan.eq_3, if_neg hsep.1]
    simp [Tokens.scan]
  rw [hlast]
  cases hquotes : (Tokens.scan false {} front).quotes with
  | false =>
    refine Or.inr ?_
    simp [Tokens.step, hquotes, hsep.2, Tokens.endRow]
  | true =>
    refine Or.inl ?_
    simp [Tokens.step, hquotes, hsep.2, Tokens.pushChar]

/-- No table is read back from its text. -/
theorem not_readsBack {table : List (List Bytes)} (hne : table ≠ []) (h : StringTable table)
    (start : Bytes) : ¬ ReadsBack start table := by
  intro hreads
  obtain ⟨state, hrun, hend⟩ := Option.bind_eq_some_iff.mp hreads
  obtain ⟨hgood, hview⟩ := CsvState.run_view (CsvState.good_new start) hrun
  have hscan : state.view = Tokens.scan false {} (hamCsvFromList table) := hview
  have hweight := weight_scan false {} (zero_notMem_hamCsvFromList table) (by simp)
  have hlast := scan_hamCsvFromList hne
  simp only [Bool.false_eq_true, if_false] at hweight
  rw [← hscan] at hweight hlast
  rw [length_hamCsvFromList h, count_hamCsvFromList h] at hweight
  have hzero : weight {} = 0 ∧ ({} : Tokens).kept.count quote = 0 ∧ ({} : Tokens).rows.length = 0 :=
    ⟨rfl, rfl, rfl⟩
  rw [hzero.1, hzero.2.1, hzero.2.2] at hweight
  have htext : cstr state.field.array = state.field.before ++ cstr state.field.behind :=
    cstr_append hgood.noZero _
  simp only [weight, Tokens.kept, CsvState.view] at hweight hlast
  dsimp only at hend
  rw [htext] at hend
  rcases hlast with hfield | ⟨hrows, hrow, hfield⟩
  · -- The last field also holds what is behind it in the array, at most a quote for each byte.
    have hgarbage : (cstr state.field.behind).count quote ≤ (cstr state.field.behind).length :=
      List.count_le_length
    rw [if_neg (c := state.field.before ++ _ = []) (by simp [hfield])] at hend
    split_ifs at hend
    obtain rfl := Option.some.inj hend
    simp [tableWeight, rowWeight, List.count_append] at hweight
    omega
  · -- The array begins with a zero behind the last row.
    have hhead := (hgood.fresh hfield).resolve_left fun hnone => hrows hnone.1
    obtain ⟨behind, hbehind⟩ := List.head?_eq_some_iff.mp hhead
    have hcstr : cstr state.field.behind = [] := by simp [hbehind, cstr]
    rw [hfield, hcstr, if_pos (List.append_nil _)] at hend
    split_ifs at hend
    obtain rfl := Option.some.inj hend
    exact hrows (by simpa [hrow, hfield, rowWeight] using hweight)

/-! ## Tables without special bytes -/

theorem scan_writtenLine {line : List Bytes} (h : ∀ field ∈ line, ∀ c ∈ field, Tokens.isPlain c)
    (rows : List (List Bytes)) (rest : Bytes) :
    Tokens.scan false { rows := rows } (writtenLine line ++ rest) =
      Tokens.scan false { rows := rows ++ [line ++ [[]]] } rest := by
  have hcstr : (line.flatMap fun field => cstr field ++ [ch ';']) =
      line.flatMap (· ++ bytes ";") := by
    refine List.flatMap_congr fun field hfield => ?_
    have hzero : 0 ∉ field := fun hmem => (Tokens.isPlain_iff.mp (h field hfield 0 hmem)).1 rfl
    rw [cstr_of_notMem hzero, Tokens.bytes_semicolon]
  rw [writtenLine, hcstr, List.append_assoc, Tokens.scan_fields h rfl rfl, List.singleton_append,
    Tokens.scan_lf rfl]
  rfl

theorem scan_plain_table {table : List (List Bytes)}
    (h : ∀ row ∈ table, ∀ field ∈ row, ∀ c ∈ field, Tokens.isPlain c)
    (rows : List (List Bytes)) :
    Tokens.scan false { rows := rows } (hamCsvFromList table) =
      { rows := rows ++ table.map (· ++ [[]]) } := by
  induction table generalizing rows with
  | nil => simp [hamCsvFromList, Tokens.scan]
  | cons row table ih =>
    have hrest := ih (fun other hother => h other (List.mem_cons_of_mem _ hother))
      (rows ++ [row ++ [[]]])
    rw [hamCsvFromList, List.flatMap_cons, scan_writtenLine (h row List.mem_cons_self)]
    simpa [hamCsvFromList] using hrest

/-- A table whose fields stand for themselves comes back with an empty field behind each row. -/
theorem hamCsvParse_plain_table {table : List (List Bytes)} (hne : table ≠ []) {start : Bytes}
    (hstart : start ≠ []) (h : ∀ row ∈ table, ∀ field ∈ row,
      (∀ c ∈ field, Tokens.isPlain c) ∧ field.length < start.length) :
    hamCsvParse start (hamCsvFromList table) = some (table.map (· ++ [[]])) := by
  have hscan : Tokens.scan false {} (hamCsvFromList table) = { rows := table.map (· ++ [[]]) } :=
    scan_plain_table (fun row hrow field hfield => (h row hrow field hfield).1) []
  have hfits : CsvState.Fits start.length (Tokens.scan false {} (hamCsvFromList table)) := by
    rw [hscan]
    refine ⟨fun read hread text htext => ?_, fun _ htext => absurd htext List.not_mem_nil,
      Nat.zero_le _⟩
    obtain ⟨row, hrow, rfl⟩ := List.mem_map.mp hread
    rcases List.mem_append.mp htext with htext | htext
    · exact (h row hrow text htext).2
    · rw [List.mem_singleton.mp htext]
      exact List.length_pos_iff.mpr hstart
  have hread := hamCsvParse_of_fits hfits
  rw [hscan] at hread
  exact hread rfl (by simpa using hne)

theorem not_readsBack_single : ¬ ReadsBack (List.replicate 65535 0) [[bytes "a"]] :=
  not_readsBack (by simp) (by decide) _

/-- One field is read as two. -/
theorem not_readsBack_field : ¬ ∀ (start : Bytes) (table : List (List Bytes)), table ≠ [] →
    (∀ row ∈ table, row ≠ []) → StringTable table →
    (∀ row ∈ table, ∀ field ∈ row, field.length < 65535) → start.length = 65535 →
    ReadsBack start table := by
  intro h
  obtain ⟨start, hstart⟩ : ∃ start : Bytes, start.length = 65535 :=
    ⟨List.replicate 65535 0, List.length_replicate⟩
  have hreads := h start [[bytes "a"]] (by decide) (by decide) (by decide) (by decide) hstart
  have hplain : ∀ row ∈ [[bytes "a"]], ∀ field ∈ row,
      (∀ c ∈ field, Tokens.isPlain c) ∧ field.length < 65535 := by decide
  have hparse := hamCsvParse_plain_table (by decide)
    (List.ne_nil_of_length_pos (by omega)) (hstart ▸ hplain)
  rw [ReadsBack, hparse] at hreads
  exact absurd hreads (by decide)

end Hamlog.Library
