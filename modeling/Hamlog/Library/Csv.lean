import Hamlog.Wire.Csv

/-! # The CSV reader of the client library

`ham_csv_parse` collects a field in an array on the stack. What the array holds
at the start is unknown and what is behind a shorter field stays, so a last
field that no separator ends is read together with what is behind it.
-/
namespace Hamlog.Library
open Foundation Wire

/-- The array `field`: the bytes in front of `ptr`, and those from it to the end. -/
structure Field where
  before : Bytes := []
  behind : Bytes
  deriving DecidableEq, Repr

namespace Field

/-- What string functions read from the array on. -/
def array (field : Field) : Bytes := field.before ++ field.behind

/-- `*ptr++ = c`, if there is room. -/
def push (field : Field) (c : Byte) : Option Field :=
  match field.behind with
  | [] => none
  | _ :: behind => some ⟨field.before ++ [c], behind⟩

/-- The field is terminated and copied, and the array begins anew with a zero. -/
def finish (field : Field) : Option (Bytes × Field) :=
  (field.push 0).map fun closed => (cstr closed.array, ⟨[], 0 :: closed.array.tail⟩)

end Field

structure CsvState where
  tokens : List (List Bytes) := []
  line : List Bytes := []
  field : Field
  quotes : Bool := false
  deriving DecidableEq, Repr

namespace CsvState

def pushChar (state : CsvState) (c : Byte) : Option CsvState :=
  (state.field.push c).map fun field => { state with field }

/-- What a byte does that is not the first of two quotes between quotes. -/
def step (state : CsvState) (c : Byte) : Option CsvState :=
  if !state.quotes && c == quote then some { state with quotes := true }
  else if state.quotes && c == quote then some { state with quotes := false }
  else if !state.quotes && c == ch ';' then
    state.field.finish.map fun finished =>
      { state with line := state.line ++ [finished.1], field := finished.2 }
  else if !state.quotes && (c == lf || c == cr) then
    state.field.finish.map fun finished =>
      { state with tokens := state.tokens ++ [state.line ++ [finished.1]], line := [],
                   field := finished.2 }
  else state.pushChar c

/-- The loop; the flag says that the next byte is skipped. `none` is a write behind the array. -/
def run : Bool → CsvState → Bytes → Option CsvState
  | _, state, [] => some state
  | true, state, _ :: str => run false state str
  | false, state, c :: str =>
    if c = 0 then some state
    else if state.quotes && c == quote && str.head? == some quote then
      (state.pushChar c).bind (run true · str)
    else (state.step c).bind (run false · str)

end CsvState

/-- The rows of a text, over what the array holds at the start. A last row whose last field is
empty is dropped. The position is counted without the wrap of its `unsigned int`. -/
def hamCsvParse (start str : Bytes) : Option (List (List Bytes)) :=
  (CsvState.run false { field := { behind := start } } str).bind fun state =>
    let text := state.field.array
    if 0 ∉ text then none
    else if cstr text = [] then some state.tokens
    else some (state.tokens ++ [state.line ++ [cstr text]])

namespace CsvState

/-- What each byte preserves, the loop does. -/
theorem run_preserves {P : CsvState → Prop}
    (hpush : ∀ {state next : CsvState} {c : Byte}, c ≠ 0 → P state →
      state.pushChar c = some next → P next)
    (hstep : ∀ {state next : CsvState} {c : Byte}, c ≠ 0 → P state →
      state.step c = some next → P next)
    {skip : Bool} {str : Bytes} {state next : CsvState} (hstate : P state)
    (h : run skip state str = some next) : P next := by
  induction str generalizing skip state with
  | nil => cases skip <;> exact Option.some.inj h ▸ hstate
  | cons c str ih =>
    cases skip with
    | true => exact ih hstate h
    | false =>
      rw [run] at h
      split_ifs at h with hzero hpair
      · exact Option.some.inj h ▸ hstate
      · obtain ⟨mid, hmid, hrun⟩ := Option.bind_eq_some_iff.mp h
        exact ih (hpush hzero hstate hmid) hrun
      · obtain ⟨mid, hmid, hrun⟩ := Option.bind_eq_some_iff.mp h
        exact ih (hstep hzero hstate hmid) hrun

end CsvState

/-! ## The loop and the scanner -/

namespace CsvState

/-- The tokens that a state holds, without the rest of the array. -/
def view (state : CsvState) : Tokens where
  rows := state.tokens
  row := state.line
  field := state.field.before
  quotes := state.quotes

/-- Fields hold no zeros, and behind a separator the array begins with one. -/
structure Good (state : CsvState) : Prop where
  noZero : 0 ∉ state.field.before
  fresh : state.field.before = [] → state.tokens = [] ∧ state.line = [] ∨
    state.field.behind.head? = some 0

theorem good_new (start : Bytes) : Good { field := { behind := start } } :=
  ⟨List.not_mem_nil, fun _ => Or.inl ⟨rfl, rfl⟩⟩

variable {state next : CsvState}

/-- What is stored takes the place of the first byte behind `ptr`. -/
theorem push_inv {field next : Field} {c : Byte} (h : field.push c = some next) :
    ∃ b behind, field.behind = b :: behind ∧ next = ⟨field.before ++ [c], behind⟩ := by
  obtain ⟨before, behind⟩ := field
  cases behind with
  | nil => cases h
  | cons b behind => exact ⟨b, behind, rfl, (Option.some.inj h).symm⟩

theorem pushChar_inv {c : Byte} (h : state.pushChar c = some next) :
    ∃ b behind, state.field.behind = b :: behind ∧
      next = { state with field := ⟨state.field.before ++ [c], behind⟩ } := by
  obtain ⟨field, hpush, rfl⟩ := Option.map_eq_some_iff.mp h
  obtain ⟨b, behind, hbehind, rfl⟩ := push_inv hpush
  exact ⟨b, behind, hbehind, rfl⟩

theorem finish_inv {field array : Field} {text : Bytes} (h : field.finish = some (text, array)) :
    ∃ b behind, field.behind = b :: behind ∧ text = cstr (field.before ++ [0] ++ behind) ∧
      array = ⟨[], 0 :: (field.before ++ [0] ++ behind).tail⟩ := by
  obtain ⟨closed, hpush, hclosed⟩ := Option.map_eq_some_iff.mp h
  obtain ⟨b, behind, hbehind, rfl⟩ := push_inv hpush
  obtain ⟨rfl, rfl⟩ := Prod.mk.inj hclosed
  exact ⟨b, behind, hbehind, rfl, rfl⟩

theorem pushChar_view {c : Byte} (hc : c ≠ 0) (hgood : state.Good)
    (h : state.pushChar c = some next) : next.Good ∧ next.view = state.view.pushChar c := by
  obtain ⟨b, behind, -, rfl⟩ := pushChar_inv h
  refine ⟨⟨?_, fun hnil => absurd hnil (by simp)⟩, rfl⟩
  have hbefore := hgood.noZero
  simpa [Ne.symm hc] using hbefore

/-- A finished field is the text in front of `ptr`. -/
theorem finish_eq {field : Field} (hzero : 0 ∉ field.before) {text : Bytes} {array : Field}
    (h : field.finish = some (text, array)) :
    text = field.before ∧ array.before = [] ∧ array.behind.head? = some 0 := by
  obtain ⟨b, behind, -, rfl, rfl⟩ := finish_inv h
  refine ⟨?_, rfl, rfl⟩
  have htake : cstr (field.before ++ 0 :: behind) = field.before := by
    rw [cstr, List.takeWhile_append_of_pos fun c hc => ?_]
    · simp
    · exact decide_eq_true fun heq : c = 0 => hzero (heq ▸ hc)
  simpa using htake

/-- One byte does in the program what it does in the scanner. -/
theorem step_view {c : Byte} (hc : c ≠ 0) (hgood : state.Good) (h : state.step c = some next) :
    next.Good ∧ next.view = state.view.step c := by
  have hview : state.view.quotes = state.quotes := rfl
  unfold step at h
  unfold Tokens.step
  rw [hview]
  split_ifs at h ⊢ with hopen hclose hsemi hline
  · obtain rfl := Option.some.inj h
    exact ⟨⟨hgood.noZero, hgood.fresh⟩, rfl⟩
  · obtain rfl := Option.some.inj h
    exact ⟨⟨hgood.noZero, hgood.fresh⟩, rfl⟩
  · obtain ⟨⟨text, array⟩, hfinish, rfl⟩ := Option.map_eq_some_iff.mp h
    obtain ⟨rfl, hbefore, hhead⟩ := finish_eq hgood.noZero hfinish
    refine ⟨⟨by simp [hbefore], fun _ => Or.inr hhead⟩, ?_⟩
    simp [view, Tokens.endField, hbefore]
  · obtain ⟨⟨text, array⟩, hfinish, rfl⟩ := Option.map_eq_some_iff.mp h
    obtain ⟨rfl, hbefore, hhead⟩ := finish_eq hgood.noZero hfinish
    refine ⟨⟨by simp [hbefore], fun _ => Or.inr hhead⟩, ?_⟩
    simp [view, Tokens.endRow, hbefore]
  · exact pushChar_view hc hgood h

theorem run_view {skip : Bool} {str : Bytes} (hgood : state.Good)
    (h : run skip state str = some next) :
    next.Good ∧ next.view = Tokens.scan skip state.view str := by
  induction str generalizing skip state with
  | nil =>
    cases skip <;>
    · obtain rfl := Option.some.inj h
      exact ⟨hgood, rfl⟩
  | cons c str ih =>
    cases skip with
    | true => exact ih hgood h
    | false =>
      have hview : state.view.quotes = state.quotes := rfl
      rw [run] at h
      rw [Tokens.scan, hview]
      split_ifs at h ⊢ with hzero hpair
      · obtain rfl := Option.some.inj h
        exact ⟨hgood, rfl⟩
      · obtain ⟨mid, hpush, hrun⟩ := Option.bind_eq_some_iff.mp h
        obtain ⟨hmid, hview⟩ := pushChar_view hzero hgood hpush
        exact hview ▸ ih hmid hrun
      · obtain ⟨mid, hstep, hrun⟩ := Option.bind_eq_some_iff.mp h
        obtain ⟨hmid, hview⟩ := step_view hzero hgood hstep
        exact hview ▸ ih hmid hrun

end CsvState

/-! ## Room in the array -/

namespace CsvState
variable {state next : CsvState}

/-- The size of the array. -/
def size (state : CsvState) : ℕ := state.field.before.length + state.field.behind.length

/-- The finished fields leave room for a zero, and the last field is in the array. -/
def Fits (capacity : ℕ) (t : Tokens) : Prop :=
  (∀ row ∈ t.rows, ∀ text ∈ row, text.length < capacity) ∧
    (∀ text ∈ t.row, text.length < capacity) ∧ t.field.length ≤ capacity

theorem fits_of_step {capacity : ℕ} {t : Tokens} {c : Byte} (h : Fits capacity (t.step c)) :
    Fits capacity t := by
  obtain ⟨hrows, hrow, hfield⟩ := h
  unfold Tokens.step at hrows hrow hfield
  split_ifs at hrows hrow hfield with hopen hclose hsemi hline
  · exact ⟨hrows, hrow, hfield⟩
  · exact ⟨hrows, hrow, hfield⟩
  · refine ⟨hrows, fun text htext => hrow text (List.mem_append_left _ htext), ?_⟩
    exact (hrow t.field (by simp [Tokens.endField])).le
  · have hlast : ∀ text ∈ t.row ++ [t.field], text.length < capacity :=
      hrows _ (by simp [Tokens.endRow])
    exact ⟨fun row hmem => hrows row (List.mem_append_left _ hmem),
      fun text htext => hlast text (List.mem_append_left _ htext), (hlast _ (by simp)).le⟩
  · refine ⟨hrows, hrow, ?_⟩
    have hlength : (t.pushChar c).field.length = t.field.length + 1 := by simp [Tokens.pushChar]
    omega

theorem fits_of_scan {capacity : ℕ} {skip : Bool} {t : Tokens} {str : Bytes}
    (h : Fits capacity (Tokens.scan skip t str)) : Fits capacity t := by
  induction str generalizing skip t with
  | nil => cases skip <;> exact h
  | cons c str ih =>
    cases skip with
    | true => exact ih h
    | false =>
      rw [Tokens.scan] at h
      split_ifs at h
      · exact h
      · obtain ⟨hrows, hrow, hfield⟩ := ih h
        refine ⟨hrows, hrow, ?_⟩
        have hlength : (t.pushChar c).field.length = t.field.length + 1 := by
          simp [Tokens.pushChar]
        omega
      · exact fits_of_step (ih h)

theorem pushChar_isSome (h : Fits state.size state.view) (c : Byte) :
    (state.pushChar c).isSome ↔ Fits state.size (state.view.pushChar c) := by
  obtain ⟨tokens, line, ⟨before, behind⟩, quotes⟩ := state
  have hfits : Fits (before.length + behind.length)
      (view ⟨tokens, line, ⟨before, behind⟩, quotes⟩) := h
  cases behind with
  | nil => simp [pushChar, Field.push, Fits, view, Tokens.pushChar, size]
  | cons b behind =>
    refine iff_of_true rfl ⟨hfits.1, hfits.2.1, ?_⟩
    simp [view, Tokens.pushChar, size]

theorem finish_isSome (field : Field) :
    field.finish.isSome ↔ field.before.length < field.before.length + field.behind.length := by
  obtain ⟨before, behind⟩ := field
  cases behind <;> simp [Field.finish, Field.push]

theorem step_isSome (h : Fits state.size state.view) (c : Byte) :
    (state.step c).isSome ↔ Fits state.size (state.view.step c) := by
  have hview : state.view.quotes = state.quotes := rfl
  have hrow {text : Bytes} (hrow : ∀ text ∈ state.line, text.length < state.size) :
      (∀ other ∈ state.line ++ [text], other.length < state.size) ↔ text.length < state.size := by
    simp only [List.mem_append, List.mem_singleton, or_imp, forall_and, forall_eq]
    exact and_iff_right hrow
  unfold step Tokens.step
  rw [hview]
  split_ifs with hopen hclose hsemi hline
  · exact iff_of_true rfl h
  · exact iff_of_true rfl h
  · rw [Option.isSome_map, finish_isSome]
    have hfits : Fits state.size state.view.endField ↔ state.field.before.length < state.size := by
      refine ⟨fun hend => (hrow h.2.1).mp hend.2.1, fun hlt => ?_⟩
      exact ⟨h.1, (hrow h.2.1).mpr hlt, Nat.zero_le _⟩
    exact hfits.symm
  · rw [Option.isSome_map, finish_isSome]
    have hfits : Fits state.size state.view.endRow ↔ state.field.before.length < state.size := by
      constructor
      · intro hend
        exact (hrow h.2.1).mp (hend.1 _ (List.mem_append_right _ (List.mem_singleton_self _)))
      · refine fun hlt => ⟨fun row hmem => ?_, fun _ hmem => absurd hmem List.not_mem_nil,
          Nat.zero_le _⟩
        rcases List.mem_append.mp hmem with hold | hnew
        · exact h.1 row hold
        · rw [List.mem_singleton.mp hnew]
          exact (hrow h.2.1).mpr hlt
    exact hfits.symm
  · exact pushChar_isSome h c

theorem pushChar_size {c : Byte} (h : state.pushChar c = some next) : next.size = state.size := by
  obtain ⟨b, behind, hbehind, rfl⟩ := pushChar_inv h
  simp only [size, hbehind, List.length_append, List.length_cons, List.length_nil]
  omega

theorem finish_size {field array : Field} {text : Bytes} (h : field.finish = some (text, array)) :
    array.before.length + array.behind.length = field.before.length + field.behind.length := by
  obtain ⟨b, behind, hbehind, -, rfl⟩ := finish_inv h
  simp only [hbehind, List.length_cons, List.length_tail, List.length_append, List.length_nil]
  omega

theorem step_size {c : Byte} (h : state.step c = some next) : next.size = state.size := by
  unfold step at h
  split_ifs at h
  · obtain rfl := Option.some.inj h
    rfl
  · obtain rfl := Option.some.inj h
    rfl
  · obtain ⟨finished, hfinish, rfl⟩ := Option.map_eq_some_iff.mp h
    exact finish_size hfinish
  · obtain ⟨finished, hfinish, rfl⟩ := Option.map_eq_some_iff.mp h
    exact finish_size hfinish
  · exact pushChar_size h

/-- The loop stays in the array if and only if the fields of the text fit into it. -/
theorem run_isSome {skip : Bool} {str : Bytes} (hgood : state.Good)
    (h : Fits state.size state.view) :
    (run skip state str).isSome ↔ Fits state.size (Tokens.scan skip state.view str) := by
  induction str generalizing skip state with
  | nil => cases skip <;> exact iff_of_true rfl h
  | cons c str ih =>
    cases skip with
    | true => exact ih hgood h
    | false =>
      have hview : state.view.quotes = state.quotes := rfl
      rw [run, Tokens.scan, hview]
      split_ifs with hzero hpair
      · exact iff_of_true rfl h
      · cases hpush : state.pushChar c with
        | none =>
          refine iff_of_false (by simp) fun hscan => ?_
          have hsome := (pushChar_isSome h c).mpr (fits_of_scan hscan)
          simp [hpush] at hsome
        | some mid =>
          obtain ⟨hmid, hmidview⟩ := pushChar_view hzero hgood hpush
          have hfits := (pushChar_isSome h c).mp (by simp [hpush])
          rw [← pushChar_size hpush, ← hmidview] at hfits ⊢
          exact ih hmid hfits
      · cases hstep : state.step c with
        | none =>
          refine iff_of_false (by simp) fun hscan => ?_
          have hsome := (step_isSome h c).mpr (fits_of_scan hscan)
          simp [hstep] at hsome
        | some mid =>
          obtain ⟨hmid, hmidview⟩ := step_view hzero hgood hstep
          have hfits := (step_isSome h c).mp (by simp [hstep])
          rw [← step_size hstep, ← hmidview] at hfits ⊢
          exact ih hmid hfits

end CsvState

/-- Behind a text that ends with a separator the array begins with a zero, and the loop gives the
finished rows alone. -/
theorem hamCsvParse_of_run {start str : Bytes} {state : CsvState}
    (hrun : CsvState.run false { field := { behind := start } } str = some state)
    (hfield : (Tokens.scan false {} str).field = [])
    (hsome : (Tokens.scan false {} str).rows ≠ []) :
    hamCsvParse start str = some (Tokens.scan false {} str).rows := by
  obtain ⟨hgood, hview⟩ := CsvState.run_view (CsvState.good_new start) hrun
  have hscan : state.view = Tokens.scan false {} str := hview
  rw [← hscan] at hfield hsome
  have hhead := (hgood.fresh hfield).resolve_left fun hnone => hsome hnone.1
  obtain ⟨behind, hbehind⟩ := List.head?_eq_some_iff.mp hhead
  have hbefore : state.field.before = [] := hfield
  have harray : state.field.array = 0 :: behind := by
    rw [Field.array, hbefore, hbehind, List.nil_append]
  have hcstr : cstr (0 :: behind) = [] := by simp [cstr]
  rw [hamCsvParse, hrun, Option.bind_some, harray]
  simp only [List.mem_cons_self, not_true_eq_false, if_false, hcstr, if_true]
  exact congrArg (fun t => some t.rows) hscan

theorem hamCsvParse_of_field_nil {start str : Bytes} {rows : List (List Bytes)}
    (h : hamCsvParse start str = some rows) (hfield : (Tokens.scan false {} str).field = [])
    (hsome : (Tokens.scan false {} str).rows ≠ []) : rows = (Tokens.scan false {} str).rows := by
  obtain ⟨state, hrun, -⟩ := Option.bind_eq_some_iff.mp h
  exact Option.some.inj (h.symm.trans (hamCsvParse_of_run hrun hfield hsome))

/-- The loop over a text of fields that fit in the array. -/
theorem run_of_fits {start str : Bytes} :
    (CsvState.run false { field := { behind := start } } str).isSome ↔
      CsvState.Fits start.length (Tokens.scan false {} str) := by
  have hstart : CsvState.Fits start.length {} :=
    ⟨fun _ h => absurd h List.not_mem_nil, fun _ h => absurd h List.not_mem_nil, Nat.zero_le _⟩
  have hsize : CsvState.size { field := { behind := start } } = start.length := by
    simp [CsvState.size]
  have hfits : CsvState.Fits (CsvState.size { field := { behind := start } })
      (CsvState.view { field := { behind := start } }) := hsize ▸ hstart
  have h : _ ↔ CsvState.Fits (CsvState.size { field := { behind := start } })
      (Tokens.scan false {} str) := CsvState.run_isSome (CsvState.good_new start) hfits
  rwa [hsize] at h

/-- The finished rows are returned when the text ends with a separator and its fields fit. -/
theorem hamCsvParse_of_fits {start str : Bytes}
    (hfits : CsvState.Fits start.length (Tokens.scan false {} str))
    (hfield : (Tokens.scan false {} str).field = [])
    (hsome : (Tokens.scan false {} str).rows ≠ []) :
    hamCsvParse start str = some (Tokens.scan false {} str).rows := by
  obtain ⟨state, hrun⟩ := Option.isSome_iff_exists.mp (run_of_fits.mpr hfits)
  exact hamCsvParse_of_run hrun hfield hsome

/-- Fields are copied as strings, so they hold no zeros. -/
theorem hamCsvParse_noZero {start str : Bytes} {rows : List (List Bytes)}
    (h : hamCsvParse start str = some rows) {row : List Bytes} (hrow : row ∈ rows) {text : Bytes}
    (htext : text ∈ row) : 0 ∉ text := by
  obtain ⟨state, hrun, hend⟩ := Option.bind_eq_some_iff.mp h
  have hscan : state.view = Tokens.scan false {} str :=
    (CsvState.run_view (CsvState.good_new start) hrun).2
  have hkept : 0 ∉ state.view.kept := by
    rw [hscan]
    exact Tokens.zero_notMem_kept false (by simp [Tokens.kept])
  have hfinished (r : List Bytes) (hr : r ∈ state.view.all) (htext : text ∈ r) : 0 ∉ text :=
    fun hzero => hkept ((Tokens.sublist_kept hr).subset (List.mem_flatten.mpr ⟨text, htext, hzero⟩))
  dsimp only at hend
  split_ifs at hend with hnone hempty
  · obtain rfl := Option.some.inj hend
    exact hfinished row (List.mem_append_left _ hrow) htext
  · obtain rfl := Option.some.inj hend
    rcases List.mem_append.mp hrow with hrow | hrow
    · exact hfinished row (List.mem_append_left _ hrow) htext
    · obtain rfl := List.mem_singleton.mp hrow
      rcases List.mem_append.mp htext with htext | htext
      · exact hfinished _ (List.mem_append_right _ (List.mem_singleton_self _)) htext
      · obtain rfl := List.mem_singleton.mp htext
        exact zero_notMem_cstr _

end Hamlog.Library
