import Hamlog.Foundation.Lines
import Hamlog.Library.Csv

/-! # The format that `ham_csv_parse` reads

The reference reading splits the signs of a text at the row ends and the rows at
the field ends; what is behind the last row end is a row unless it is nothing.
The reader of the client library agrees on texts that end with a row end.
Otherwise its last field is what string functions find in the array, where the
terminator is that of an earlier field, if there is one.
-/
namespace Hamlog.Library
open Foundation Wire

/-- What the bytes of a text stand for. -/
inductive Sign where
  | literal (c : Byte)
  | mark
  | fieldEnd
  | rowEnd
  deriving DecidableEq, Repr

namespace Sign

/-- The signs of a text; the flag says that its begin is between quotes. -/
def signs : Bool → Bytes → List Sign
  | _, [] => []
  | true, [c] => if c = quote then [mark] else [literal c]
  | true, c :: d :: str =>
    if c = quote then
      if d = quote then literal quote :: signs true str else mark :: signs false (d :: str)
    else literal c :: signs true (d :: str)
  | false, c :: str =>
    if c = quote then mark :: signs true str
    else if c = ch ';' then fieldEnd :: signs false str
    else if c = lf ∨ c = cr then rowEnd :: signs false str
    else literal c :: signs false str

def byte? : Sign → Option Byte
  | literal c => some c
  | _ => none

/-- The fields of the signs of a row. -/
def fields (row : List Sign) : List Bytes := (row.splitOn fieldEnd).map (·.filterMap byte?)

end Sign

/-- The rows of a text. -/
def reference (str : Bytes) : List (List Bytes) :=
  let rows := (Sign.signs false str).splitOn .rowEnd
  (if rows.getLast? = some [] then rows.dropLast else rows).map Sign.fields

/-- The rows of the text are returned, whatever the array holds at the start. -/
def ReadsReference (str : Bytes) : Prop :=
  ∀ start : Bytes, start.length = 65535 → hamCsvParse start str = some (reference str)

/-- The text ends with a line end outside of quotes. -/
def EndsRow (str : Bytes) : Prop := (Sign.signs false str).getLast? = some .rowEnd

/-- The last field is not empty, and of the fields in front of it that are at least as long, the
last one is as long. -/
def Terminated (str : Bytes) : Prop :=
  let fields := (reference str).flatten
  let last := fields.getLastD []
  last ≠ [] ∧ ((fields.dropLast.filter (last.length ≤ ·.length)).getLast?.map List.length) =
    some last.length

instance (str : Bytes) : Decidable (EndsRow str) := inferInstanceAs (Decidable (_ = _))

instance (str : Bytes) : Decidable (Terminated str) := inferInstanceAs (Decidable (_ ∧ _))

/-! ## The scanner reads the signs -/

namespace Sign

/-- What a sign does to the tokens. -/
def read (t : Tokens) : Sign → Tokens
  | literal c => t.pushChar c
  | mark => { t with quotes := !t.quotes }
  | fieldEnd => t.endField
  | rowEnd => t.endRow

theorem scan_pair {t : Tokens} (h : t.quotes = true) (rest : Bytes) :
    Tokens.scan false t (quote :: quote :: rest) = Tokens.scan false (t.pushChar quote) rest := by
  have hquote : quote ≠ 0 := by decide
  rw [Tokens.scan, if_neg hquote, if_pos (by simp [h]), Tokens.scan]

theorem scan_eq_foldl {quotes : Bool} {str : Bytes} (hzero : 0 ∉ str) {t : Tokens}
    (ht : t.quotes = quotes) : Tokens.scan false t str = (signs quotes str).foldl read t := by
  fun_induction signs quotes str generalizing t with
  | case1 => simp [Tokens.scan]
  | case2 =>
    rw [Tokens.scan_single (by decide) (by simp)]
    simp [Tokens.scan, Tokens.step, ht, read]
  | case3 c hc =>
    rw [Tokens.scan_single (by simpa [eq_comm] using hzero) (by simp)]
    simp [Tokens.scan, Tokens.step, ht, hc, read]
  | case4 str ih =>
    simp only [List.mem_cons, not_or] at hzero
    rw [scan_pair ht]
    exact ih hzero.2.2 ht
  | case5 d str hd ih =>
    have hclose : t.step quote = { t with quotes := false } := by simp [Tokens.step, ht]
    rw [List.mem_cons, not_or] at hzero
    rw [Tokens.scan_single (by decide) (by simpa using hd), hclose, ih hzero.2 rfl]
    simp [read, ht]
  | case6 c d str hc ih =>
    have hpush : t.step c = t.pushChar c := by simp [Tokens.step, ht, hc]
    rw [List.mem_cons, not_or] at hzero
    rw [Tokens.scan_single (Ne.symm hzero.1) (fun heq => absurd heq hc), hpush]
    exact ih hzero.2 ht
  | case7 str ih =>
    have hopen : t.step quote = { t with quotes := true } := by simp [Tokens.step, ht]
    rw [List.mem_cons, not_or] at hzero
    rw [Tokens.scan_cons ht (by decide), hopen, ih hzero.2 rfl]
    simp [read, ht]
  | case8 str hc ih =>
    rw [List.mem_cons, not_or] at hzero
    rw [Tokens.scan_semicolon ht]
    exact ih hzero.2 ht
  | case9 c str hc hsemi hline ih =>
    have hend : t.step c = t.endRow := by simp [Tokens.step, ht, hc, hsemi, hline]
    rw [List.mem_cons, not_or] at hzero
    rw [Tokens.scan_cons ht (Ne.symm hzero.1), hend]
    exact ih hzero.2 ht
  | case10 c str hc hsemi hline ih =>
    have hpush : t.step c = t.pushChar c := by simp [Tokens.step, ht, hc, hsemi, hline]
    rw [List.mem_cons, not_or] at hzero
    rw [Tokens.scan_cons ht (Ne.symm hzero.1), hpush]
    exact ih hzero.2 ht

theorem signs_ne_nil {str : Bytes} (h : str ≠ []) : signs false str ≠ [] := by
  obtain ⟨c, str, rfl⟩ := List.exists_cons_of_ne_nil h
  rw [signs]
  split_ifs <;> simp

/-! ## The rows of the signs -/

theorem fields_ne_nil (row : List Sign) : fields row ≠ [] := by
  simp [fields, List.splitOn_ne_nil]

theorem fields_fieldEnd (row : List Sign) : fields (fieldEnd :: row) = [] :: fields row := by
  simp [fields, List.splitOn_cons_eq_if_modifyHead]

/-- Another sign belongs to the first field. -/
theorem fields_cons {sign : Sign} (h : sign ≠ fieldEnd) (row : List Sign) :
    fields (sign :: row) = (fields row).modifyHead (sign.byte?.toList ++ ·) := by
  obtain ⟨head, tail, hsplit⟩ := List.exists_cons_of_ne_nil (List.splitOn_ne_nil fieldEnd row)
  rw [fields, fields, List.splitOn_cons_eq_if_modifyHead, if_neg (by simpa using h), hsplit]
  cases hbyte : sign.byte? <;> simp [hbyte]

/-- All rows of the signs, the last one too when it is nothing. -/
def rows (signs : List Sign) : List (List Bytes) := (signs.splitOn rowEnd).map fields

theorem rows_rowEnd (signs : List Sign) : rows (rowEnd :: signs) = [[]] :: rows signs := by
  have hempty : fields [] = [[]] := by simp [fields]
  simp [rows, List.splitOn_cons_eq_if_modifyHead, hempty]

theorem rows_cons {sign : Sign} (h : sign ≠ rowEnd) (signs : List Sign) :
    ∃ row others, rows signs = fields row :: others ∧
      rows (sign :: signs) = fields (sign :: row) :: others := by
  obtain ⟨row, others, hsplit⟩ := List.exists_cons_of_ne_nil (List.splitOn_ne_nil rowEnd signs)
  refine ⟨row, others.map fields, by rw [rows, hsplit, List.map_cons], ?_⟩
  rw [rows, List.splitOn_cons_eq_if_modifyHead, if_neg (by simpa using h), hsplit,
    List.modifyHead_cons, List.map_cons]

/-- The scanner has the rows of the signs that it has read behind those it started with. -/
theorem rows_foldl (signs : List Sign) (t : Tokens) :
    (signs.foldl read t).rows ++ [(signs.foldl read t).row ++ [(signs.foldl read t).field]] =
      t.rows ++ (rows signs).modifyHead fun row => t.row ++ row.modifyHead (t.field ++ ·) := by
  induction signs generalizing t with
  | nil => simp [rows, fields]
  | cons sign signs ih =>
    rw [List.foldl_cons, ih]
    by_cases hrow : sign = rowEnd
    · subst hrow
      obtain ⟨row, others, hrows⟩ := List.exists_cons_of_ne_nil
        (by simp [rows, List.splitOn_ne_nil] : rows signs ≠ [])
      rw [rows_rowEnd, hrows]
      cases row <;> simp [read, Tokens.endRow]
    · obtain ⟨row, others, hrows, hcons⟩ := rows_cons hrow signs
      obtain ⟨field, rest, hfields⟩ := List.exists_cons_of_ne_nil (fields_ne_nil row)
      rw [hrows, hcons]
      by_cases hfield : sign = fieldEnd
      · subst hfield
        rw [fields_fieldEnd, hfields]
        simp [read, Tokens.endField]
      · rw [fields_cons hfield, hfields]
        cases sign with
        | literal c => simp [read, byte?, Tokens.pushChar]
        | mark => simp [read, byte?]
        | fieldEnd => exact absurd rfl hfield
        | rowEnd => exact absurd rfl hrow

end Sign

section Scanned
variable {str : Bytes} (hzero : 0 ∉ str)
include hzero

/-- The rows of the scanner and its last row are all rows of the signs. -/
theorem scan_rows_signs : (Tokens.scan false {} str).rows ++
    [(Tokens.scan false {} str).row ++ [(Tokens.scan false {} str).field]] =
      Sign.rows (Sign.signs false str) := by
  have hrows := Sign.rows_foldl (Sign.signs false str) {}
  rw [← Sign.scan_eq_foldl hzero rfl] at hrows
  rw [hrows]
  cases hall : Sign.rows (Sign.signs false str) with
  | nil => rfl
  | cons row rows => cases row <;> rfl

theorem scan_of_endsRow (h : EndsRow str) :
    (Tokens.scan false {} str).rows ≠ [] ∧ (Tokens.scan false {} str).row = [] ∧
      (Tokens.scan false {} str).field = [] := by
  obtain ⟨front, hfront⟩ := List.getLast?_eq_some_iff.mp h
  have hscan : Tokens.scan false {} str = (Sign.signs false str).foldl Sign.read {} :=
    Sign.scan_eq_foldl hzero rfl
  rw [hscan, hfront, List.foldl_append]
  simp [Sign.read, Tokens.endRow]

theorem reference_of_endsRow (h : EndsRow str) :
    reference str = (Tokens.scan false {} str).rows := by
  obtain ⟨-, hrow, hfield⟩ := scan_of_endsRow hzero h
  have hrows := congrArg List.dropLast (scan_rows_signs hzero)
  rw [List.dropLast_concat, Sign.rows, ← List.map_dropLast] at hrows
  rw [hrows, reference]
  simp only [if_pos (getLast?_splitOn.mpr (Or.inr h))]

theorem reference_of_open (hne : str ≠ []) (h : ¬ EndsRow str) :
    reference str = (Tokens.scan false {} str).rows ++
      [(Tokens.scan false {} str).row ++ [(Tokens.scan false {} str).field]] := by
  have hlast : ¬ ((Sign.signs false str).splitOn .rowEnd).getLast? = some [] := by
    rw [getLast?_splitOn]
    exact not_or.mpr ⟨Sign.signs_ne_nil hne, h⟩
  rw [scan_rows_signs hzero, reference]
  simp only [if_neg hlast, Sign.rows]

end Scanned

/-! ## What is in the array behind a field -/

/-- What the fields that were finished in the array leave at an index of it, other than the first:
the last one that reached the index has its terminator or one of its bytes there. -/
def leftAt (start : Bytes) (finished : List Bytes) (n : ℕ) : Option Byte :=
  match (finished.filter (n ≤ ·.length)).getLast? with
  | none => start[n]?
  | some field => (field ++ [0])[n]?

theorem leftAt_concat (start : Bytes) (finished : List Bytes) (text : Bytes) (n : ℕ) :
    leftAt start (finished ++ [text]) n =
      if n ≤ text.length then (text ++ [0])[n]? else leftAt start finished n := by
  rw [leftAt, List.filter_append, List.filter_singleton]
  split_ifs with hreach
  · rw [decide_eq_true hreach, cond_true, List.getLast?_concat]
  · rw [decide_eq_false hreach, cond_false, List.append_nil, leftAt]

namespace CsvState

def finished (state : CsvState) : List Bytes := state.tokens.flatten ++ state.line

/-- From `ptr` on the array holds what finished fields left there; the first byte only as long as
there is none. -/
def Leaves (start : Bytes) (state : CsvState) : Prop :=
  0 ∉ state.field.before ∧ ∀ n, state.field.before.length ≤ n → 0 < n ∨ state.finished = [] →
    state.field.array[n]? = leftAt start state.finished n

variable {start : Bytes} {state next : CsvState}

theorem leaves_new (start : Bytes) : Leaves start { field := { behind := start } } :=
  ⟨List.not_mem_nil, fun _ _ _ => rfl⟩

theorem leaves_pushChar {c : Byte} (hc : c ≠ 0) (hstate : Leaves start state)
    (h : state.pushChar c = some next) : Leaves start next := by
  obtain ⟨b, behind, hbehind, rfl⟩ := pushChar_inv h
  obtain ⟨hzero, hleft⟩ := hstate
  refine ⟨by simpa [Ne.symm hc] using hzero, fun n hn hfirst => ?_⟩
  simp only [List.length_append, List.length_singleton] at hn
  have hold := hleft n (by omega) hfirst
  simp only [Field.array, hbehind] at hold ⊢
  rw [List.getElem?_append_right (by omega)] at hold
  rw [List.getElem?_append_right (by simpa using hn), List.length_append, List.length_singleton]
  obtain ⟨m, rfl⟩ := Nat.exists_eq_add_of_le hn
  have hcell : state.field.before.length + 1 + m - state.field.before.length = m + 1 := by omega
  rw [hcell, List.getElem?_cons_succ] at hold
  rw [Nat.add_sub_cancel_left]
  exact hold

/-- A finished field leaves its terminator. -/
theorem leaves_finish {field array : Field} {text : Bytes} {fields : List Bytes}
    (hzero : 0 ∉ field.before)
    (hleft : ∀ n, field.before.length ≤ n → 0 < n → field.array[n]? = leftAt start fields n)
    (h : field.finish = some (text, array)) {n : ℕ} (hn : 0 < n) :
    array.array[n]? = leftAt start (fields ++ [text]) n := by
  obtain ⟨rfl, -⟩ := finish_eq hzero h
  obtain ⟨b, behind, hbehind, -, rfl⟩ := finish_inv h
  obtain ⟨m, rfl⟩ := Nat.exists_eq_add_one.mpr hn
  have hnew : Field.array ⟨[], 0 :: (field.before ++ [0] ++ behind).tail⟩ =
      0 :: (field.before ++ [0] ++ behind).tail := rfl
  rw [leftAt_concat, hnew, List.getElem?_cons_succ, List.getElem?_tail]
  split_ifs with hreach
  · rw [List.getElem?_append_left (by simpa using hreach)]
  · -- Behind the terminator the array is as it was.
    have hlt : field.before.length + 1 ≤ m + 1 := Nat.lt_of_not_le hreach
    have hold := hleft (m + 1) (Nat.le_of_succ_le hlt) hn
    rw [Field.array, hbehind, List.append_cons,
      List.getElem?_append_right (by simpa using hlt)] at hold
    rw [List.getElem?_append_right (by simpa using hlt), ← hold]
    simp

/-- A separator leaves the terminator of its field, in the row or in a new one. -/
theorem leaves_closed {text : Bytes} {array : Field} (hstate : Leaves start state)
    (h : state.field.finish = some (text, array)) (hnext : next.field = array)
    (hfinished : next.finished = state.finished ++ [text]) : Leaves start next := by
  obtain ⟨-, hbefore, -⟩ := finish_eq hstate.1 h
  refine ⟨by simp [hnext, hbefore], fun n _ hfirst => ?_⟩
  have hn : 0 < n := hfirst.resolve_right (by simp [hfinished])
  rw [hnext, hfinished]
  exact leaves_finish hstate.1 (fun m hm hpos => hstate.2 m hm (Or.inl hpos)) h hn

theorem leaves_step {c : Byte} (hc : c ≠ 0) (hstate : Leaves start state)
    (h : state.step c = some next) : Leaves start next := by
  unfold step at h
  split_ifs at h
  · obtain rfl := Option.some.inj h
    exact hstate
  · obtain rfl := Option.some.inj h
    exact hstate
  · obtain ⟨⟨text, array⟩, hfinish, rfl⟩ := Option.map_eq_some_iff.mp h
    exact leaves_closed hstate hfinish rfl (by simp [finished])
  · obtain ⟨⟨text, array⟩, hfinish, rfl⟩ := Option.map_eq_some_iff.mp h
    exact leaves_closed hstate hfinish rfl (by simp [finished])
  · exact leaves_pushChar hc hstate h

theorem leaves_run {str : Bytes}
    (h : run false { field := { behind := start } } str = some state) : Leaves start state :=
  run_preserves leaves_pushChar leaves_step (leaves_new start) h

end CsvState

/-! ## The last field -/

/-- The text in the array is the last field if a terminator stands behind it. -/
theorem hamCsvParse_open_iff {start str : Bytes} {state : CsvState}
    (hrun : CsvState.run false { field := { behind := start } } str = some state) :
    hamCsvParse start str = some (state.tokens ++ [state.line ++ [state.field.before]]) ↔
      state.field.before ≠ [] ∧ state.field.behind.head? = some 0 := by
  have hzero := (CsvState.leaves_run hrun).1
  have htext : cstr state.field.array = state.field.before ++ cstr state.field.behind :=
    cstr_append hzero _
  rw [hamCsvParse, hrun, Option.bind_some]
  simp only [htext]
  constructor
  · intro h
    split_ifs at h with hnone hempty
    · exact absurd (congrArg List.length (Option.some.inj h)) (by simp)
    · have hcstr : cstr state.field.behind = [] := by simpa using h
      rw [hcstr, List.append_nil] at hempty
      refine ⟨hempty, ?_⟩
      cases hbehind : state.field.behind with
      | nil => exact absurd (by simpa [Field.array, hbehind] using hnone) hzero
      | cons b behind =>
        by_contra hb
        rw [hbehind, cstr, List.takeWhile_cons_of_pos (by simpa using hb)] at hcstr
        exact List.cons_ne_nil _ _ hcstr
  · rintro ⟨hne, hhead⟩
    obtain ⟨behind, hbehind⟩ := List.head?_eq_some_iff.mp hhead
    have hcstr : cstr state.field.behind = [] := by simp [hbehind, cstr]
    rw [hcstr, List.append_nil, if_neg hne, if_neg]
    simp [Field.array, hbehind]

/-- A terminator is behind the last field in every array if and only if the last field that
reached there ended there. -/
theorem leftAt_iff {finished : List Bytes} (hzero : ∀ field ∈ finished, 0 ∉ field) {n : ℕ}
    (hn : n < 65535) :
    (∀ start : Bytes, start.length = 65535 → leftAt start finished n = some 0) ↔
      (finished.filter (n ≤ ·.length)).getLast?.map List.length = some n := by
  cases hlast : (finished.filter (n ≤ ·.length)).getLast? with
  | none =>
    refine iff_of_false (fun h => ?_) (by simp)
    have hone := h (List.replicate 65535 1) List.length_replicate
    rw [leftAt, hlast] at hone
    simp only [List.getElem?_replicate_of_lt hn] at hone
    exact absurd hone (by decide)
  | some field =>
    obtain ⟨hmem, hlength⟩ := List.mem_filter.mp (List.mem_of_getLast? hlast)
    have hleft (start : Bytes) : leftAt start finished n = (field ++ [0])[n]? := by
      rw [leftAt, hlast]
    simp only [hleft, Option.map_some, Option.some.injEq]
    constructor
    · intro h
      have hbyte := h (List.replicate 65535 1) List.length_replicate
      by_contra hne
      have hlt : n < field.length := lt_of_le_of_ne (by simpa using hlength) (Ne.symm hne)
      rw [List.getElem?_append_left hlt] at hbyte
      exact hzero field hmem (List.mem_of_getElem? hbyte)
    · rintro rfl start -
      simp

section Exact
variable {str : Bytes} (hne : str ≠ []) (hzero : 0 ∉ str)
  (hshort : ∀ row ∈ reference str, ∀ field ∈ row, field.length < 65535)
include hne hzero hshort

theorem fits_reference : CsvState.Fits 65535 (Tokens.scan false {} str) := by
  by_cases hend : EndsRow str
  · obtain ⟨-, hrow, hfield⟩ := scan_of_endsRow hzero hend
    rw [reference_of_endsRow hzero hend] at hshort
    exact ⟨hshort, by simp [hrow], by simp [hfield]⟩
  · rw [reference_of_open hzero hne hend] at hshort
    have hlast := hshort _ (List.mem_append_right _ (List.mem_singleton_self _))
    exact ⟨fun row hrow => hshort row (List.mem_append_left _ hrow),
      fun text htext => hlast text (List.mem_append_left _ htext),
      (hlast _ (List.mem_append_right _ (List.mem_singleton_self _))).le⟩

/-- A text that ends with a row end is read as its rows. -/
theorem readsReference_of_endsRow (hend : EndsRow str) : ReadsReference str := by
  obtain ⟨hrows, -, hfield⟩ := scan_of_endsRow hzero hend
  intro start hstart
  rw [reference_of_endsRow hzero hend]
  exact hamCsvParse_of_fits (hstart ▸ fits_reference hne hzero hshort) hfield hrows

/-- Over one array, the last row of another text is read if the array has a terminator behind the
last field. -/
theorem hamCsvParse_reference_iff (hend : ¬ EndsRow str) {start : Bytes}
    (hstart : start.length = 65535) :
    hamCsvParse start str = some (reference str) ↔
      (Tokens.scan false {} str).field ≠ [] ∧
        leftAt start ((Tokens.scan false {} str).rows.flatten ++ (Tokens.scan false {} str).row)
          (Tokens.scan false {} str).field.length = some 0 := by
  have hfits := fits_reference hne hzero hshort
  rw [← hstart] at hfits
  obtain ⟨state, hrun⟩ := Option.isSome_iff_exists.mp (run_of_fits.mpr hfits)
  have hview : state.view = Tokens.scan false {} str :=
    (CsvState.run_view (CsvState.good_new start) hrun).2
  have hopen := hamCsvParse_open_iff hrun
  rw [reference_of_open hzero hne hend, ← hview]
  refine hopen.trans (and_congr_right fun hfield => ?_)
  have hleft := (CsvState.leaves_run hrun).2 state.field.before.length le_rfl
    (Or.inl (List.length_pos_iff.mpr hfield))
  rw [Field.array, List.getElem?_append_right le_rfl, Nat.sub_self, ← List.head?_eq_getElem?]
    at hleft
  rw [hleft]
  exact Iff.rfl

/-- The last row of another text is read if its last field is terminated by an earlier one. -/
theorem readsReference_open_iff (hend : ¬ EndsRow str) : ReadsReference str ↔ Terminated str := by
  have hstart (start : Bytes) (hstart : start.length = 65535) :=
    hamCsvParse_reference_iff hne hzero hshort hend hstart
  have hreference := reference_of_open hzero hne hend
  have hkept : 0 ∉ (Tokens.scan false {} str).kept :=
    Tokens.zero_notMem_kept false (by simp [Tokens.kept])
  generalize Tokens.scan false {} str = t at hstart hreference hkept
  have hfinished : ∀ field ∈ t.rows.flatten ++ t.row, 0 ∉ field := fun field hmem hbyte =>
    hkept (List.mem_append_left _ (List.mem_flatten.mpr ⟨field, hmem, hbyte⟩))
  have hroom : t.field.length < 65535 := by
    rw [hreference] at hshort
    exact hshort _ (List.mem_append_right _ (List.mem_singleton_self _)) _
      (List.mem_append_right _ (List.mem_singleton_self _))
  have hflatten : (reference str).flatten = (t.rows.flatten ++ t.row) ++ [t.field] := by
    simp [hreference]
  have hterminated : Terminated str ↔ t.field ≠ [] ∧
      ∀ start : Bytes, start.length = 65535 →
        leftAt start (t.rows.flatten ++ t.row) t.field.length = some 0 := by
    rw [leftAt_iff hfinished hroom, Terminated, hflatten]
    simp only [List.getLastD_concat, List.dropLast_concat]
  rw [hterminated]
  constructor
  · intro h
    have hfield := ((hstart _ List.length_replicate).mp
      (h (List.replicate 65535 0) List.length_replicate)).1
    exact ⟨hfield, fun start hlength => ((hstart start hlength).mp (h start hlength)).2⟩
  · rintro ⟨hfield, hleft⟩ start hlength
    exact (hstart start hlength).mpr ⟨hfield, hleft start hlength⟩

/-- A text is read by the format if and only if it ends with a row end, or an earlier field has
left the terminator of its last one. -/
theorem readsReference_iff : ReadsReference str ↔ EndsRow str ∨ Terminated str := by
  by_cases hend : EndsRow str
  · exact iff_of_true (readsReference_of_endsRow hne hzero hshort hend) (Or.inl hend)
  · rw [readsReference_open_iff hne hzero hshort hend]
    exact (or_iff_right hend).symm

end Exact

/-- The second field ends where the first one did. -/
theorem readsReference_iff_call :
    ReadsReference (bytes "call;OK1A") ↔ EndsRow (bytes "call;OK1A") ∨
      Terminated (bytes "call;OK1A") :=
  readsReference_iff (by decide) (by decide) (by decide)

/-- A shorter last field is returned with the rest of the one in front of it. -/
theorem not_readsReference_shorter : ¬ ∀ str : Bytes, str ≠ [] → 0 ∉ str →
    (∀ row ∈ reference str, ∀ field ∈ row, field.length < 65535) → ReadsReference str := by
  intro h
  have hreads := h (bytes "name;15") (by decide) (by decide) (by decide)
  have hopen := (readsReference_open_iff (by decide) (by decide) (by decide) (by decide)).mp hreads
  exact absurd hopen (by decide)

end Hamlog.Library
