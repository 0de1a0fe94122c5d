import Hamlog.Library.Csv
import Hamlog.Server.Responders.LogBook

/-! # The three CSV readers

`LogBook::parse`, `QtLogBook::tokenize` and `ham_csv_parse` share their loop and
finish its last field and row each in its own way: the first drops an unfinished
field, the second keeps it, and the third looks for it in its array, where an
empty field makes it drop the whole row. They agree on the texts that end with a
line end outside of quotes.
-/
namespace Hamlog.Wire
open Foundation Library Server

/-- The rows are the same, up to one empty row at the end. -/
def SameRows (rows others : List (List Bytes)) : Prop :=
  rows = others ∨ rows = others ++ [[]] ∨ others = rows ++ [[]]

/-- The readers return the same rows, whatever the array of the last one holds at the start. -/
def ReadersAgree (str : Bytes) : Prop :=
  ∀ start : Bytes, start.length = 65535 → ∃ rows, hamCsvParse start str = some rows ∧
    SameRows (LogBook.parse str) (QtLogBook.tokenize str) ∧
    SameRows (QtLogBook.tokenize str) rows ∧ SameRows (LogBook.parse str) rows

/-- The text ends with a line end outside of quotes, but for two quotes at most that enclose
nothing. -/
def EndsLine (str : Bytes) : Prop :=
  ∃ front c tail, str = front ++ c :: tail ∧ (c = lf ∨ c = cr) ∧ Even (front.count quote) ∧
    (tail = [] ∨ tail = [quote] ∨ tail = [quote, quote])

/-- The lengths of the fields that a `;` or a line end outside of quotes ends, the first one counted
on from `n`. Between quotes two quotes are one byte, of which `skip` marks the second; no other
quote counts. -/
def fieldLengths : Bool → Bool → ℕ → Bytes → List ℕ
  | _, _, _, [] => []
  | true, quotes, n, _ :: str => fieldLengths false quotes n str
  | false, quotes, n, c :: str =>
    if quotes && c == quote && str.head? == some quote then fieldLengths true quotes (n + 1) str
    else if c = quote then fieldLengths false (!quotes) n str
    else if !quotes && (c == ch ';' || c == lf || c == cr) then n :: fieldLengths false quotes 0 str
    else fieldLengths false quotes (n + 1) str

/-- No field of the text is too long for the array. -/
def ShortFields (str : Bytes) : Prop := ∀ n ∈ fieldLengths false false 0 str, n < 65535

/-! ## Quotes at the end of a text -/

namespace Tokens
variable {t : Tokens}

/-- A text can be read in two pieces if the first one does not end with a quote. -/
theorem scan_append_flag_last {skip : Bool} {xs : Bytes} (hskip : xs = [] → skip = false)
    (hxs : 0 ∉ xs) (hlast : xs.getLast? ≠ some quote) (ys : Bytes) :
    scan skip t (xs ++ ys) = scan false (scan skip t xs) ys := by
  induction xs generalizing skip t with
  | nil =>
    rw [hskip rfl, List.nil_append]
    simp [scan]
  | cons c xs ih =>
    rw [List.mem_cons, not_or] at hxs
    cases xs with
    | nil =>
      cases skip with
      | true => simp [scan]
      | false =>
        have hc : (c == quote) = false := by simpa using hlast
        rw [List.singleton_append, scan, scan, hc, if_neg (Ne.symm hxs.1), if_neg (Ne.symm hxs.1)]
        simp [scan]
    | cons d xs =>
      have hlast' : (d :: xs).getLast? ≠ some quote := by simpa using hlast
      cases skip with
      | true => exact ih (by simp) hxs.2 hlast'
      | false =>
        rw [List.cons_append, scan, scan, if_neg (Ne.symm hxs.1), if_neg (Ne.symm hxs.1),
          List.cons_append, List.head?_cons, List.head?_cons]
        by_cases hpair : (t.quotes && c == quote && some d == some quote) = true
        · rw [if_pos hpair, if_pos hpair]
          exact ih (by simp) hxs.2 hlast'
        · rw [if_neg hpair, if_neg hpair]
          exact ih (by simp) hxs.2 hlast'

/-- Quotes finish nothing. -/
theorem scan_replicate (skip : Bool) (n : ℕ) :
    (scan skip t (List.replicate n quote)).rows = t.rows ∧
      (scan skip t (List.replicate n quote)).row = t.row ∧
      t.field <+: (scan skip t (List.replicate n quote)).field := by
  have hquote : quote ≠ 0 := by decide
  induction n generalizing skip t with
  | zero => cases skip <;> exact ⟨rfl, rfl, List.prefix_rfl⟩
  | succ n ih =>
    rw [List.replicate_succ]
    cases skip with
    | true => exact ih (t := t) false
    | false =>
      rw [scan, if_neg hquote]
      split_ifs
      · obtain ⟨hrows, hrow, hfield⟩ := ih (t := t.pushChar quote) true
        exact ⟨hrows, hrow, (List.prefix_append _ _).trans hfield⟩
      · obtain ⟨hrows, hrow, hfield⟩ := ih (t := t.step quote) false
        have hstep : (t.step quote).rows = t.rows ∧ (t.step quote).row = t.row ∧
            (t.step quote).field = t.field := by
          cases hquotes : t.quotes <;> simp [step, hquotes]
        rw [hstep.1] at hrows
        rw [hstep.2.1] at hrow
        rw [hstep.2.2] at hfield
        exact ⟨hrows, hrow, hfield⟩

/-- The third of three quotes outside of quotes is kept. -/
theorem scan_three_quotes (h : t.quotes = false) (n : ℕ) :
    (scan false t (List.replicate (n + 3) quote)).field ≠ [] := by
  have hquote : quote ≠ 0 := by decide
  have hopen : t.step quote = { t with quotes := true } := by simp [step, h]
  rw [List.replicate_succ, scan_cons h hquote, hopen, List.replicate_succ, List.replicate_succ,
    scan, if_neg hquote, if_pos (by simp), scan]
  intro hnil
  have hprefix := (scan_replicate (t := pushChar { t with quotes := true } quote) false n).2.2
  rw [hnil, List.prefix_nil] at hprefix
  simp [pushChar] at hprefix

theorem step_eq_scan {c : Byte} (hc : c ≠ 0) : scan false t [c] = t.step c := by
  rw [scan_single hc (by simp), scan]

theorem even_iff_bodd (n : ℕ) : Even n ↔ n.bodd = false := by
  rw [Nat.even_iff, Nat.mod_two_of_bodd]
  cases n.bodd <;> simp

theorem scan_quotes_even {xs : Bytes} (hxs : 0 ∉ xs) :
    (scan false {} xs).quotes = false ↔ Even (xs.count quote) := by
  rw [scan_quotes hxs, even_iff_bodd]
  simp

/-- The fields that are finished have the lengths that are counted. -/
theorem fieldLengths_scan {skip : Bool} {str : Bytes} (hzero : 0 ∉ str) :
    (scan skip t str).all.flatten.map List.length =
      t.all.flatten.map List.length ++ fieldLengths skip t.quotes t.field.length str := by
  induction str generalizing skip t with
  | nil => simp [scan, fieldLengths]
  | cons c str ih =>
    rw [List.mem_cons, not_or] at hzero
    cases skip with
    | true => exact ih hzero.2
    | false =>
      rw [scan, if_neg (Ne.symm hzero.1), fieldLengths]
      by_cases hpair : (t.quotes && c == quote && str.head? == some quote) = true
      · rw [if_pos hpair, if_pos hpair, ih hzero.2]
        simp [pushChar, all]
      · rw [if_neg hpair, if_neg hpair, ih hzero.2]
        by_cases hquote : c = quote
        · cases hquotes : t.quotes <;> simp [step, hquote, hquotes, all]
        · cases hquotes : t.quotes with
          | true => simp [step, hquote, hquotes, pushChar, all]
          | false =>
            by_cases hsemi : c = ch ';'
            · simp [step, hsemi, hquotes, endField, all, show ch ';' ≠ quote by decide]
            · by_cases hend : c = lf ∨ c = cr
              · rcases hend with rfl | rfl <;>
                  simp [step, hquote, hsemi, hquotes, endRow, all]
              · rw [not_or] at hend
                simp [step, hquote, hsemi, hend, hquotes, pushChar, all]

/-- The fields are those that the server parses. -/
theorem shortFields_iff {str : Bytes} (hzero : 0 ∉ str) :
    ShortFields str ↔ ∀ row ∈ LogBook.parse str, ∀ field ∈ row, field.length < 65535 := by
  have hlengths : (scan false {} str).all.flatten.map List.length =
      fieldLengths false false 0 str := fieldLengths_scan (t := {}) hzero
  rw [ShortFields, ← hlengths]
  simp only [List.forall_mem_map, List.forall_mem_flatten]
  rfl

/-- A text is read up to its line end, behind which at most two quotes stand. -/
theorem scan_endsLine {str : Bytes} (hzero : 0 ∉ str) (h : EndsLine str) :
    (scan false {} str).rows ≠ [] ∧ (scan false {} str).row = [] ∧
      (scan false {} str).field = [] := by
  obtain ⟨front, c, tail, rfl, hc, heven, htail⟩ := h
  have hquote : c ≠ quote ∧ c ≠ ch ';' ∧ quote ≠ 0 := by rcases hc with rfl | rfl <;> decide
  rw [List.mem_append, List.mem_cons, not_or, not_or] at hzero
  have hquotes := (scan_quotes_even hzero.1).mpr heven
  have hline : (scan false {} front).step c = (scan false {} front).endRow := by
    simp [step, hquotes, hquote, hc]
  have htailed (u : Tokens) (hu : u.quotes = false) : (scan false u tail).rows = u.rows ∧
      (scan false u tail).row = u.row ∧ (scan false u tail).field = u.field := by
    rcases htail with rfl | rfl | rfl <;> simp [scan, step, hu, hquote.2.2]
  rw [scan_append hzero.1 (by simpa using hquote.1), scan_cons hquotes (Ne.symm hzero.2.1), hline]
  obtain ⟨hrows, hrow, hfield⟩ := htailed (scan false {} front).endRow hquotes
  rw [hrows, hrow, hfield]
  simp [endRow]

theorem exists_trailing_quotes (str : Bytes) :
    ∃ front n, str = front ++ List.replicate n quote ∧ front.getLast? ≠ some quote := by
  induction str using List.reverseRecOn with
  | nil => exact ⟨[], 0, rfl, by simp⟩
  | append_singleton front c ih =>
    by_cases hc : c = quote
    · obtain ⟨front', n, rfl, hlast⟩ := ih
      refine ⟨front', n + 1, ?_, hlast⟩
      rw [hc, List.replicate_succ', List.append_assoc]
    · exact ⟨front ++ [c], 0, by simp, by simpa using hc⟩

/-- A text behind which no field is begun ends with a line end. -/
theorem endsLine_of_scan {str : Bytes} (hzero : 0 ∉ str) (hrows : (scan false {} str).rows ≠ [])
    (hrow : (scan false {} str).row = []) (hfield : (scan false {} str).field = []) :
    EndsLine str := by
  obtain ⟨base, n, rfl, hlast⟩ := exists_trailing_quotes str
  rw [List.mem_append, not_or] at hzero
  rw [scan_append_flag_last (fun _ => rfl) hzero.1 hlast] at hrows hrow hfield
  obtain ⟨hrows', hrow', hprefix⟩ := scan_replicate (t := scan false {} base) false n
  have hfield' : (scan false {} base).field = [] := by rwa [hfield, List.prefix_nil] at hprefix
  rw [hrows'] at hrows
  rw [hrow'] at hrow
  rcases List.eq_nil_or_concat base with rfl | ⟨front, c, rfl⟩
  · exact absurd rfl hrows
  rw [List.concat_eq_append] at *
  have hc : c ≠ quote := by simpa using hlast
  rw [List.mem_append, List.mem_singleton, not_or] at hzero
  rw [scan_append hzero.1.1 (by simpa using hc), step_eq_scan (Ne.symm hzero.1.2)] at *
  cases hquotes : (scan false {} front).quotes with
  | true => simp [step, hquotes, hc, pushChar] at hfield'
  | false =>
    have hsep : ch ';' ≠ quote := by decide
    have hn : n ≤ 2 := by
      by_contra hlt
      obtain ⟨m, rfl⟩ := Nat.exists_eq_add_of_le' (Nat.lt_of_not_le hlt)
      refine scan_three_quotes ?_ m hfield
      rw [step_quotes, hquotes, beq_false_of_ne hc]
      rfl
    by_cases hend : c = lf ∨ c = cr
    · refine ⟨front, c, List.replicate n quote, by simp, hend,
        (scan_quotes_even hzero.1.1).mp hquotes, ?_⟩
      interval_cases n <;> simp
    · rw [not_or] at hend
      by_cases hsemi : c = ch ';'
      · simp [step, hquotes, hsemi, hsep, endField] at hrow
      · simp [step, hquotes, hc, hsemi, hend, pushChar] at hfield'

end Tokens

/-! ## The array of the client library -/

/-- An array that holds a zero has had a field finished in it. -/
def ZeroFinished (state : CsvState) : Prop :=
  0 ∈ state.field.array → state.tokens ≠ [] ∨ state.line ≠ []

theorem zeroFinished_pushChar {state next : CsvState} {c : Byte} (hc : c ≠ 0)
    (hstate : ZeroFinished state) (h : state.pushChar c = some next) : ZeroFinished next := by
  obtain ⟨b, behind, hfield, rfl⟩ := CsvState.pushChar_inv h
  refine fun hzero => hstate ?_
  rw [Field.array, List.append_assoc, List.singleton_append, List.mem_append, List.mem_cons]
    at hzero
  rw [Field.array, hfield]
  rcases hzero with hbefore | hzero | hbehind
  · exact List.mem_append_left _ hbefore
  · exact absurd hzero.symm hc
  · exact List.mem_append_right _ (List.mem_cons_of_mem _ hbehind)

theorem zeroFinished_step {state next : CsvState} {c : Byte} (hc : c ≠ 0)
    (hstate : ZeroFinished state) (h : state.step c = some next) : ZeroFinished next := by
  unfold CsvState.step at h
  split_ifs at h
  · obtain rfl := Option.some.inj h
    exact hstate
  · obtain rfl := Option.some.inj h
    exact hstate
  · obtain ⟨finished, -, rfl⟩ := Option.map_eq_some_iff.mp h
    exact fun _ => Or.inr (by simp)
  · obtain ⟨finished, -, rfl⟩ := Option.map_eq_some_iff.mp h
    exact fun _ => Or.inl (by simp)
  · exact zeroFinished_pushChar hc hstate h

theorem zeroFinished_run {skip : Bool} {state next : CsvState} {str : Bytes}
    (hstate : ZeroFinished state) (h : CsvState.run skip state str = some next) :
    ZeroFinished next :=
  CsvState.run_preserves zeroFinished_pushChar zeroFinished_step hstate h

/-- Over an array without zeros, a text without a last field is read to its finished rows, and it
has finished a field. -/
theorem hamCsvParse_field_nil {start str : Bytes} (hstart : 0 ∉ start) {rows : List (List Bytes)}
    (h : hamCsvParse start str = some rows) (hfield : (Tokens.scan false {} str).field = []) :
    rows = (Tokens.scan false {} str).rows ∧
      ((Tokens.scan false {} str).rows ≠ [] ∨ (Tokens.scan false {} str).row ≠ []) := by
  obtain ⟨state, hrun, hend⟩ := Option.bind_eq_some_iff.mp h
  obtain ⟨hgood, hview⟩ := CsvState.run_view (CsvState.good_new start) hrun
  have hscan : state.view = Tokens.scan false {} str := hview
  have hzeroFinished : ZeroFinished state :=
    zeroFinished_run (fun hzero => absurd hzero (by simpa [Field.array] using hstart)) hrun
  rw [← hscan] at hfield ⊢
  have hbefore : state.field.before = [] := hfield
  dsimp only at hend
  split_ifs at hend with hnone hempty
  · obtain rfl := Option.some.inj hend
    exact ⟨rfl, hzeroFinished hnone⟩
  · have hfinished := hzeroFinished hnone
    have hhead := (hgood.fresh hfield).resolve_left fun hnil =>
      hfinished.elim (fun h => h hnil.1) fun h => h hnil.2
    obtain ⟨behind, hbehind⟩ := List.head?_eq_some_iff.mp hhead
    exact absurd (by simp [Field.array, hbefore, hbehind, cstr]) hempty

/-! ## Agreement -/

theorem sameRows_length {rows others : List (List Bytes)} (h : SameRows rows others)
    (hlength : rows.length = others.length) : rows = others := by
  rcases h with rfl | rfl | rfl
  · rfl
  · simp at hlength
  · simp at hlength

theorem tokenize_eq (str : Bytes) : QtLogBook.tokenize str =
    (Tokens.scan false {} str).rows ++ [if (Tokens.scan false {} str).field = [] then
      (Tokens.scan false {} str).row
    else (Tokens.scan false {} str).row ++ [(Tokens.scan false {} str).field]] := by
  simp only [QtLogBook.tokenize, List.isEmpty_iff]
  split_ifs <;> rfl

/-- The server keeps a last field only if it is empty. -/
theorem field_nil_of_sameRows {str : Bytes}
    (h : SameRows (LogBook.parse str) (QtLogBook.tokenize str)) :
    (Tokens.scan false {} str).field = [] := by
  rw [tokenize_eq] at h
  have hsame := sameRows_length h (by simp [LogBook.parse, Tokens.all])
  by_contra hne
  rw [if_neg hne, LogBook.parse, Tokens.all] at hsame
  simp at hsame

/-- The three readers agree on a text if and only if it ends with a line end outside of quotes and
its fields fit in the array of the client library. -/
theorem readersAgree_iff {str : Bytes} (hzero : 0 ∉ str) :
    ReadersAgree str ↔ EndsLine str ∧ ShortFields str := by
  constructor
  · intro h
    obtain ⟨start, hlength, hstart⟩ : ∃ start : Bytes, start.length = 65535 ∧ 0 ∉ start :=
      ⟨List.replicate 65535 1, List.length_replicate, fun h => by
        have := List.eq_of_mem_replicate h
        revert this
        decide⟩
    obtain ⟨rows, hparse, hserver, -, hclient⟩ := h start hlength
    have hfield := field_nil_of_sameRows hserver
    obtain ⟨rfl, hfinished⟩ := hamCsvParse_field_nil hstart hparse hfield
    have hrow : (Tokens.scan false {} str).row = [] := by
      rcases hclient with hsame | hsame | hsame
      · simp [LogBook.parse, Tokens.all] at hsame
      · simpa [LogBook.parse, Tokens.all] using hsame
      · simpa [LogBook.parse, Tokens.all] using congrArg List.length hsame
    refine ⟨Tokens.endsLine_of_scan hzero (hfinished.resolve_right (not_not.mpr hrow)) hrow hfield,
      (Tokens.shortFields_iff hzero).mpr fun row hmem field hmem' => ?_⟩
    obtain ⟨state, hrun, -⟩ := Option.bind_eq_some_iff.mp hparse
    have hfits := run_of_fits.mp (by rw [hrun]; rfl : (CsvState.run false _ str).isSome)
    rw [hlength] at hfits
    rcases List.mem_append.mp hmem with hmem | hmem
    · exact hfits.1 row hmem field hmem'
    · exact hfits.2.1 field (List.mem_singleton.mp hmem ▸ hmem')
  · rintro ⟨hends, hshort⟩ start hlength
    rw [Tokens.shortFields_iff hzero] at hshort
    obtain ⟨hrows, hrow, hfield⟩ := Tokens.scan_endsLine hzero hends
    have hfits : CsvState.Fits start.length (Tokens.scan false {} str) := by
      rw [hlength]
      refine ⟨fun row hmem => hshort row (List.mem_append_left _ hmem), ?_, by simp [hfield]⟩
      simp [hrow]
    have hserver : LogBook.parse str = (Tokens.scan false {} str).rows ++ [[]] := by
      rw [LogBook.parse, Tokens.all, hrow]
    have hui : QtLogBook.tokenize str = (Tokens.scan false {} str).rows ++ [[]] := by
      rw [tokenize_eq, if_pos hfield, hrow]
    refine ⟨_, hamCsvParse_of_fits hfits hfield hrows, Or.inl (hserver.trans hui.symm),
      Or.inr (Or.inl hui), Or.inr (Or.inl hserver)⟩

/-- A row with its line end. -/
theorem readersAgree_iff_row : ReadersAgree (bytes "a;b\n") ↔
    EndsLine (bytes "a;b\n") ∧ ShortFields (bytes "a;b\n") :=
  readersAgree_iff (by decide)

/-- Without the line end, the server drops the last field. -/
theorem not_readersAgree_open : ¬ ∀ str : Bytes, 0 ∉ str → ReadersAgree str := by
  intro h
  obtain ⟨rows, -, hserver, -⟩ := h (bytes "a;b") (by decide) (List.replicate 65535 0)
    List.length_replicate
  exact absurd (field_nil_of_sameRows hserver) (by decide)

end Hamlog.Wire
