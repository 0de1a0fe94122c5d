import Hamlog.Wire.CharClass

/-! # The CSV tables on the wire

`LogBook::parse` and `QtLogBook::tokenize` are the same loop over the bytes of a
text; they differ in what they do with a last field that no separator ends.
-/
namespace Hamlog.Wire
open Foundation

/-- The tokens so far: the rows in front of `tokens.back()`, which is `row`, the field under
construction, and whether the loop is between quotes. -/
structure Tokens where
  rows : List (List Bytes) := []
  row : List Bytes := []
  field : Bytes := []
  quotes : Bool := false
  deriving DecidableEq, Repr

namespace Tokens

def pushChar (tokens : Tokens) (c : Byte) : Tokens := { tokens with field := tokens.field ++ [c] }

/-- The field is finished. -/
def endField (tokens : Tokens) : Tokens :=
  { tokens with row := tokens.row ++ [tokens.field], field := [] }

/-- The field and its row are finished. -/
def endRow (tokens : Tokens) : Tokens :=
  { tokens with rows := tokens.rows ++ [tokens.row ++ [tokens.field]], row := [], field := [] }

/-- What a byte does that is not the first of two quotes between quotes. -/
def step (tokens : Tokens) (c : Byte) : Tokens :=
  if !tokens.quotes && c == quote then { tokens with quotes := true }
  else if tokens.quotes && c == quote then { tokens with quotes := false }
  else if !tokens.quotes && c == ch ';' then tokens.endField
  else if !tokens.quotes && (c == lf || c == cr) then tokens.endRow
  else tokens.pushChar c

/-- The loop of both functions; the flag says that the next byte is skipped, because it is the
second of two quotes. A zero byte ends the loop. -/
def scan : Bool → Tokens → Bytes → Tokens
  | _, tokens, [] => tokens
  | true, tokens, _ :: str => scan false tokens str
  | false, tokens, c :: str =>
    if c = 0 then tokens
    else if tokens.quotes && c == quote && str.head? == some quote then
      scan true (tokens.pushChar c) str
    else scan false (tokens.step c) str

def all (tokens : Tokens) : List (List Bytes) := tokens.rows ++ [tokens.row]

/-- A byte that stands for itself outside of quotes. -/
def isPlain (c : Byte) : Bool := c != 0 && c != quote && c != ch ';' && c != lf && c != cr

theorem isPlain_iff {c : Byte} :
    isPlain c ↔ c ≠ 0 ∧ c ≠ quote ∧ c ≠ ch ';' ∧ c ≠ lf ∧ c ≠ cr := by
  simp [isPlain, and_assoc]

variable {t : Tokens}

/-- A byte that is no quote in front of another one is read alone. -/
theorem scan_single {c : Byte} (hc : c ≠ 0) {rest : Bytes}
    (h : c = quote → rest.head? ≠ some quote) :
    scan false t (c :: rest) = scan false (t.step c) rest := by
  rw [scan.eq_3, if_neg hc, if_neg]
  simp only [Bool.and_eq_true, beq_iff_eq, not_and]
  exact fun hpair => h hpair.2

/-! ## Outside of quotes -/

theorem scan_cons (h : t.quotes = false) {c : Byte} (hc : c ≠ 0) (rest : Bytes) :
    scan false t (c :: rest) = scan false (t.step c) rest := by
  rw [scan, if_neg hc]
  simp [h]

theorem step_plain (h : t.quotes = false) {c : Byte} (hc : isPlain c) :
    t.step c = t.pushChar c := by
  obtain ⟨-, hquote, hsemi, hlf, hcr⟩ := isPlain_iff.mp hc
  simp [step, h, hquote, hsemi, hlf, hcr]

theorem scan_plain {text : Bytes} (h : t.quotes = false) (htext : ∀ c ∈ text, isPlain c)
    (rest : Bytes) :
    scan false t (text ++ rest) =
      scan false { t with field := t.field ++ text } rest := by
  induction text generalizing t with
  | nil => simp
  | cons c text ih =>
    have hc := htext c List.mem_cons_self
    have hrest := ih (t := t.pushChar c) h fun d hd => htext d (List.mem_cons_of_mem _ hd)
    rw [List.cons_append, scan_cons h (isPlain_iff.mp hc).1, step_plain h hc, hrest]
    simp [pushChar]

theorem scan_semicolon (h : t.quotes = false) (rest : Bytes) :
    scan false t (ch ';' :: rest) = scan false t.endField rest := by
  have hne : ch ';' ≠ 0 ∧ ch ';' ≠ quote := by decide
  rw [scan_cons h hne.1]
  simp [step, h, hne]

theorem scan_lf (h : t.quotes = false) (rest : Bytes) :
    scan false t (lf :: rest) = scan false t.endRow rest := by
  have hne : lf ≠ 0 ∧ lf ≠ quote ∧ lf ≠ ch ';' := by decide
  rw [scan_cons h hne.1]
  simp [step, h, hne]

/-! ## Between quotes -/

/-- The text that stands for a field between quotes: every quote is doubled. -/
def escaped (field : Bytes) : Bytes :=
  field.flatMap fun c => if c = quote then [quote, quote] else [c]

def quoted (field : Bytes) : Bytes := quote :: escaped field ++ [quote]

theorem scan_escaped {field : Bytes} (h : t.quotes = true) (hfield : 0 ∉ field)
    (rest : Bytes) :
    scan false t (escaped field ++ rest) =
      scan false { t with field := t.field ++ field } rest := by
  have hquote : quote ≠ 0 := by decide
  induction field generalizing t with
  | nil => simp [escaped]
  | cons c field ih =>
    have hc : c ≠ 0 := fun heq => hfield (heq ▸ List.mem_cons_self)
    have hrest := ih (t := t.pushChar c) h fun hmem => hfield (List.mem_cons_of_mem _ hmem)
    have hpush : { t.pushChar c with field := (t.pushChar c).field ++ field } =
        { t with field := t.field ++ c :: field } := by
      simp [pushChar]
    rw [hpush] at hrest
    rw [← hrest]
    by_cases hcq : c = quote
    · subst hcq
      simp [escaped, scan, h, hquote]
    · simp [escaped, scan, step, h, hc, hcq]

theorem scan_quoted {field : Bytes} (h : t.quotes = false) (hfield : 0 ∉ field) {c : Byte}
    (hc : c ≠ quote) (rest : Bytes) :
    scan false t (quoted field ++ c :: rest) =
      scan false { t with field := t.field ++ field } (c :: rest) := by
  have hquote : quote ≠ 0 := by decide
  have hinside := scan_escaped (t := { t with quotes := true }) rfl hfield
    (quote :: c :: rest)
  have hopen : t.step quote = { t with quotes := true } := by simp [step, h]
  have hclose (u : Tokens) (hu : u.quotes = true) :
      scan false u (quote :: c :: rest) = scan false { u with quotes := false } (c :: rest) := by
    rw [scan.eq_3, if_neg hquote]
    simp [step, hu, hc]
  rw [quoted, List.cons_append, List.cons_append, List.append_assoc, List.singleton_append,
    scan_cons h hquote, hopen, hinside, hclose _ rfl, ← h]

theorem bytes_semicolon : bytes ";" = [ch ';'] := rfl

/-! ## Lines -/

/-- A text that is read as a field, whatever separator is behind it. -/
def Stands (text field : Bytes) : Prop :=
  ∀ {t : Tokens} {c : Byte} (rest : Bytes), t.quotes = false → c ≠ quote →
    scan false t (text ++ c :: rest) =
      scan false { t with field := t.field ++ field } (c :: rest)

theorem stands_plain {text : Bytes} (h : ∀ c ∈ text, isPlain c) : Stands text text :=
  fun rest hquotes _ => scan_plain hquotes h (_ :: rest)

theorem stands_quoted {field : Bytes} (h : 0 ∉ field) : Stands (quoted field) field :=
  fun rest hquotes hc => scan_quoted hquotes h hc rest

/-- The fields of a row with a `;` between them. -/
def joined (texts : List Bytes) : Bytes := List.intercalate (bytes ";") texts

theorem joined_cons_cons (text next : Bytes) (texts : List Bytes) :
    joined (text :: next :: texts) = text ++ ch ';' :: joined (next :: texts) := by
  simp [joined, List.intercalate, bytes]

theorem joined_singleton (text : Bytes) : joined [text] = text := by
  simp [joined, List.intercalate]

theorem mem_joined {c : Byte} {texts : List Bytes} (h : c ∈ joined texts) :
    c = ch ';' ∨ ∃ text ∈ texts, c ∈ text := by
  induction texts with
  | nil => exact absurd h List.not_mem_nil
  | cons text texts ih =>
    cases texts with
    | nil => exact Or.inr ⟨text, List.mem_cons_self, joined_singleton text ▸ h⟩
    | cons next texts =>
      rw [joined_cons_cons, List.mem_append, List.mem_cons] at h
      rcases h with h | h | h
      · exact Or.inr ⟨text, List.mem_cons_self, h⟩
      · exact Or.inl h
      · rcases ih h with h | ⟨other, hother, h⟩
        · exact Or.inl h
        · exact Or.inr ⟨other, List.mem_cons_of_mem _ hother, h⟩

theorem count_joined (texts : List Bytes) :
    (joined texts).count quote = texts.flatten.count quote := by
  have hsemi : ch ';' ≠ quote := by decide
  induction texts with
  | nil => rfl
  | cons text texts ih =>
    cases texts with
    | nil => simp [joined_singleton]
    | cons next texts =>
      rw [joined_cons_cons, List.count_append, List.count_cons_of_ne hsemi, ih,
        List.flatten_cons (l := text), List.count_append]

/-- A line of texts that stand for fields is read as a row. -/
theorem scan_line {texts fields : List Bytes} (h : List.Forall₂ Stands texts fields)
    (hne : texts ≠ []) (hquotes : t.quotes = false) (hfield : t.field = [])
    (rest : Bytes) :
    scan false t (joined texts ++ lf :: rest) =
      scan false { rows := t.rows ++ [t.row ++ fields] } rest := by
  have hsep : ch ';' ≠ quote ∧ lf ≠ quote := by decide
  induction h generalizing t with
  | nil => exact absurd rfl hne
  | @cons text field texts fields hstands hrest ih =>
    cases hrest with
    | nil =>
      rw [joined_singleton, hstands rest hquotes hsep.2, scan_lf (by exact hquotes)]
      simp [endRow, hfield, hquotes]
    | @cons next _ texts _ hnext hrest =>
      have hih := ih (List.cons_ne_nil _ _)
        (t := { t with row := t.row ++ [field], field := [] }) hquotes rfl
      rw [joined_cons_cons, List.append_assoc, List.cons_append,
        hstands _ hquotes hsep.1, scan_semicolon (by exact hquotes)]
      simpa [endField, hfield] using hih

/-- Fields that all end with a `;`. -/
theorem scan_fields {texts : List Bytes} (h : ∀ text ∈ texts, ∀ c ∈ text, isPlain c)
    (hquotes : t.quotes = false) (hfield : t.field = []) (rest : Bytes) :
    scan false t (texts.flatMap (· ++ bytes ";") ++ rest) =
      scan false { t with row := t.row ++ texts } rest := by
  induction texts generalizing t with
  | nil => simp
  | cons text texts ih =>
    have hrest := ih (t := { t with row := t.row ++ [text] })
      (fun other hother => h other (List.mem_cons_of_mem _ hother)) hquotes hfield
    rw [List.flatMap_cons, List.append_assoc, List.append_assoc,
      scan_plain hquotes (h text List.mem_cons_self), bytes_semicolon, List.singleton_append,
      scan_semicolon (by exact hquotes), endField, hfield, List.nil_append]
    simpa [hfield, bytes_semicolon] using hrest

/-! ## Any text -/

theorem scan_append_flag {skip : Bool} {xs ys : Bytes} (hskip : xs = [] → skip = false)
    (hxs : 0 ∉ xs) (hys : ys.head? ≠ some quote) :
    scan skip t (xs ++ ys) = scan false (scan skip t xs) ys := by
  induction xs generalizing skip t with
  | nil =>
    rw [hskip rfl, List.nil_append]
    simp [scan]
  | cons c xs ih =>
    rw [List.mem_cons, not_or] at hxs
    cases skip with
    | true => exact ih (fun _ => rfl) hxs.2
    | false =>
      have hnext : ((xs ++ ys).head? == some quote) = (xs.head? == some quote) := by
        cases xs with
        | nil => simpa using hys
        | cons d xs => rfl
      rw [List.cons_append, scan, scan, hnext]
      split_ifs with hzero hpair
      · exact absurd hzero.symm hxs.1
      · have hne : xs ≠ [] := by
          rintro rfl
          simp at hpair
        exact ih (fun hnil => absurd hnil hne) hxs.2
      · exact ih (fun _ => rfl) hxs.2

/-- A text can be read in two pieces if no two quotes are torn apart. -/
theorem scan_append {xs ys : Bytes} (hxs : 0 ∉ xs) (hys : ys.head? ≠ some quote) :
    scan false t (xs ++ ys) = scan false (scan false t xs) ys :=
  scan_append_flag (fun _ => rfl) hxs hys

theorem step_quotes (c : Byte) : (t.step c).quotes = (t.quotes ^^ c == quote) := by
  unfold step
  cases hquotes : t.quotes with
  | false =>
    cases c == quote with
    | true => simp
    | false =>
      simp only [Bool.not_false, Bool.true_and, Bool.false_and, Bool.false_eq_true, if_false]
      split_ifs <;> simp [endField, endRow, pushChar, hquotes]
  | true => cases c == quote <;> simp [pushChar, hquotes]

theorem bodd_count_cons (c : Byte) (xs : Bytes) :
    ((c :: xs).count quote).bodd = ((xs.count quote).bodd ^^ c == quote) := by
  rw [List.count_cons, Nat.bodd_add]
  cases c == quote <;> rfl

theorem scan_quotes_flag (skip : Bool) {xs : Bytes} (hxs : 0 ∉ xs) :
    (scan skip t xs).quotes =
      (t.quotes ^^ ((if skip then xs.tail else xs).count quote).bodd) := by
  induction xs generalizing skip t with
  | nil => cases skip <;> simp [scan]
  | cons c xs ih =>
    rw [List.mem_cons, not_or] at hxs
    cases skip with
    | true => exact ih false hxs.2
    | false =>
      have hstep := ih (t := t.step c) false hxs.2
      have hpush := ih (t := t.pushChar c) true hxs.2
      rw [scan, if_neg (Ne.symm hxs.1)]
      simp only [Bool.false_eq_true, if_false, if_true] at hstep hpush ⊢
      split_ifs with hpair
      · simp only [Bool.and_eq_true, beq_iff_eq] at hpair
        obtain ⟨⟨-, rfl⟩, hhead⟩ := hpair
        obtain ⟨rest, rfl⟩ := List.head?_eq_some_iff.mp hhead
        rw [hpush, bodd_count_cons, bodd_count_cons, List.tail_cons]
        simp [pushChar]
      · rw [hstep, step_quotes, bodd_count_cons, Bool.xor_assoc,
          Bool.xor_comm (xs.count quote).bodd]

/-- The loop is between quotes when it has read an odd number of quotes. -/
theorem scan_quotes {xs : Bytes} (hxs : 0 ∉ xs) :
    (scan false t xs).quotes = (t.quotes ^^ (xs.count quote).bodd) := by
  exact scan_quotes_flag false hxs

theorem step_rows (c : Byte) : t.rows <+: (t.step c).rows := by
  unfold step
  split_ifs <;> simp [endField, endRow, pushChar]

/-- Finished rows stay. -/
theorem scan_rows (skip : Bool) (xs : Bytes) : t.rows <+: (scan skip t xs).rows := by
  induction xs generalizing skip t with
  | nil => cases skip <;> exact List.prefix_rfl
  | cons c xs ih =>
    cases skip with
    | true => exact ih (t := t) false
    | false =>
      rw [scan]
      split_ifs
      · exact List.prefix_rfl
      · exact ih (t := t.pushChar c) true
      · exact (step_rows c).trans (ih (t := t.step c) false)

/-- Only a line end can end a row. -/
theorem step_within {c : Byte} (hlf : c ≠ lf) (hcr : c ≠ cr) :
    (t.step c).rows = t.rows ∧ t.row <+: (t.step c).row := by
  unfold step
  split_ifs with hopen hclose hsemi hend
  · exact ⟨rfl, List.prefix_rfl⟩
  · exact ⟨rfl, List.prefix_rfl⟩
  · exact ⟨rfl, List.prefix_append _ _⟩
  · exact absurd hend (by simp [hlf, hcr])
  · exact ⟨rfl, List.prefix_rfl⟩

theorem step_last (c : Byte) : ∃ row, t.row <+: row ∧
    ((t.step c).all = t.rows ++ [row] ∨ (t.step c).all = t.rows ++ [row, []]) := by
  by_cases hend : !t.quotes && (c == lf || c == cr)
  · have hquote : lf ≠ quote ∧ cr ≠ quote ∧ lf ≠ ch ';' ∧ cr ≠ ch ';' := by decide
    have hstep : t.step c = t.endRow := by
      simp only [Bool.and_eq_true, Bool.not_eq_true', Bool.or_eq_true, beq_iff_eq] at hend
      rcases hend with ⟨hquotes, rfl | rfl⟩ <;> simp [step, hquotes, hquote]
    exact ⟨t.row ++ [t.field], List.prefix_append _ _, Or.inr (by simp [hstep, endRow, all])⟩
  · refine ⟨(t.step c).row, ?_, Or.inl ?_⟩
    all_goals
      unfold step
      split_ifs <;> simp [endField, pushChar, all]

/-- A text without line ends inside finishes one row at most. -/
theorem scan_one_line (skip : Bool) {xs : Bytes}
    (h : ∀ c ∈ xs.dropLast, c ≠ lf ∧ c ≠ cr) : ∃ row, t.row <+: row ∧
      ((scan skip t xs).all = t.rows ++ [row] ∨ (scan skip t xs).all = t.rows ++ [row, []]) := by
  have hhere : ∃ row, t.row <+: row ∧ (t.all = t.rows ++ [row] ∨ t.all = t.rows ++ [row, []]) :=
    ⟨t.row, List.prefix_rfl, Or.inl rfl⟩
  induction xs generalizing skip t with
  | nil => cases skip <;> exact hhere
  | cons c xs ih =>
    cases xs with
    | nil =>
      cases skip with
      | true => exact hhere
      | false =>
        rw [scan]
        split_ifs with hzero hpair
        · exact hhere
        · simp at hpair
        · exact step_last c
    | cons d xs =>
      have hc := h c (by simp)
      have hrest : ∀ e ∈ (d :: xs).dropLast, e ≠ lf ∧ e ≠ cr := fun e he =>
        h e (by simpa using Or.inr he)
      cases skip with
      | true => exact ih false hrest hhere
      | false =>
        obtain ⟨hrows, hrow⟩ := step_within (t := t) hc.1 hc.2
        rw [scan]
        split_ifs
        · exact hhere
        · exact ih (t := t.pushChar c) true hrest ⟨t.row, List.prefix_rfl, Or.inl rfl⟩
        · obtain ⟨row, hprefix, hall⟩ := ih (t := t.step c) false hrest
            ⟨_, List.prefix_rfl, Or.inl rfl⟩
          rw [hrows] at hall
          exact ⟨row, hrow.trans hprefix, hall⟩

/-- Behind a line end that is read outside of quotes, a new row starts. -/
theorem scan_line_end {front : Bytes} (hfront : 0 ∉ front)
    (heven : ((front ++ [lf]).count quote).bodd = false) :
    scan false {} (front ++ [lf]) = { rows := (scan false {} (front ++ [lf])).rows } := by
  have hlf : lf ≠ quote := by decide
  have hcount : (front ++ [lf]).count quote = front.count quote := by
    rw [List.count_append, List.count_singleton, if_neg (by simpa using hlf), Nat.add_zero]
  have hquotes : (scan false {} front).quotes = false := by
    rw [scan_quotes hfront, ← hcount, heven]
    rfl
  rw [scan_append hfront (by simpa using hlf), scan_lf hquotes]
  simp [scan, endRow, hquotes]

/-- A line behind an even number of quotes is read as its row, whatever follows. -/
theorem mem_scan_rows {front : Bytes} (hfront : 0 ∉ front)
    (heven : ((front ++ [lf]).count quote).bodd = false) {texts : List Bytes} (hne : texts ≠ [])
    (htexts : ∀ text ∈ texts, ∀ c ∈ text, isPlain c) (rest : Bytes) :
    texts ∈ (scan false {} (front ++ [lf] ++ (joined texts ++ lf :: rest))).rows := by
  have hzero : 0 ∉ front ++ [lf] := by
    have hlf : (0 : Byte) ≠ lf := by decide
    simpa [hlf] using hfront
  have hhead : (joined texts ++ lf :: rest).head? ≠ some quote := by
    obtain ⟨text, texts, rfl⟩ := List.exists_cons_of_ne_nil hne
    have hsep : ch ';' ≠ quote ∧ lf ≠ quote := by decide
    cases text with
    | nil =>
      cases texts with
      | nil => simpa [joined_singleton] using hsep.2
      | cons next texts =>
        rw [joined_cons_cons]
        simpa using hsep.1
    | cons c text =>
      have hc := (isPlain_iff.mp (htexts _ List.mem_cons_self c List.mem_cons_self)).2.1
      cases texts with
      | nil => simpa [joined_singleton] using hc
      | cons next texts =>
        rw [joined_cons_cons]
        simpa using hc
  have hstands : List.Forall₂ Stands texts texts :=
    List.forall₂_same.mpr fun text htext => stands_plain (htexts text htext)
  rw [scan_append hzero hhead, scan_line_end hfront heven, scan_line hstands hne rfl rfl]
  exact (scan_rows false rest).subset (by simp)

/-! ## What is kept of a text -/

/-- All bytes that are in a field. -/
def kept (t : Tokens) : Bytes :=
  (t.rows.flatten ++ t.row).flatten ++ t.field

theorem pushChar_kept (c : Byte) : (t.pushChar c).kept = t.kept ++ [c] := by
  simp [kept, pushChar]

theorem endField_kept : t.endField.kept = t.kept := by simp [kept, endField]

theorem endRow_kept : t.endRow.kept = t.kept := by simp [kept, endRow]

/-- A single byte is dropped or kept, but a quote is not kept. -/
theorem step_kept (c : Byte) :
    (t.step c).kept = t.kept ∨
      c ≠ quote ∧ (t.step c).kept = t.kept ++ [c] := by
  unfold step
  split_ifs with hopen hclose
  · exact Or.inl rfl
  · exact Or.inl rfl
  · exact Or.inl endField_kept
  · exact Or.inl endRow_kept
  · refine Or.inr ⟨fun hc => ?_, pushChar_kept c⟩
    cases hquotes : t.quotes <;> simp [hquotes, hc] at hopen hclose

theorem scan_count_flag (skip : Bool) (xs : Bytes) :
    2 * (scan skip t xs).kept.count quote ≤
      2 * t.kept.count quote + (if skip then xs.tail else xs).count quote := by
  induction xs generalizing skip t with
  | nil => cases skip <;> simp [scan]
  | cons c xs ih =>
    cases skip with
    | true => exact ih (t := t) false
    | false =>
      have hstep := ih (t := t.step c) false
      have hpush := ih (t := t.pushChar c) true
      rw [scan]
      simp only [Bool.false_eq_true, if_false, if_true] at hstep hpush ⊢
      split_ifs with hzero hpair
      · omega
      · simp only [Bool.and_eq_true, beq_iff_eq] at hpair
        obtain ⟨⟨-, rfl⟩, hhead⟩ := hpair
        obtain ⟨rest, rfl⟩ := List.head?_eq_some_iff.mp hhead
        rw [pushChar_kept, List.count_append, List.count_singleton_self, List.tail_cons] at hpush
        rw [List.count_cons_self, List.count_cons_self]
        omega
      · have hcons : xs.count quote ≤ (c :: xs).count quote := (List.sublist_cons_self c xs).count_le _
        rcases step_kept (t := t) c with hkept | ⟨hc, hkept⟩
        · rw [hkept] at hstep
          omega
        · rw [hkept, List.count_append, List.count_singleton, if_neg (by simpa using hc)] at hstep
          omega

/-- Two quotes of a text leave at most one in the fields. -/
theorem scan_count (xs : Bytes) :
    2 * (scan false t xs).kept.count quote ≤ 2 * t.kept.count quote + xs.count quote :=
  scan_count_flag false xs

/-- A byte that ends a field outside of quotes. -/
def isSeparator (c : Byte) : Bool := c == ch ';' || c == lf || c == cr

/-- A text without quotes leaves no separator in the fields. -/
theorem scan_separators {xs : Bytes} (hxs : quote ∉ xs) (hquotes : t.quotes = false)
    (hkept : ∀ c ∈ t.kept, isSeparator c = false) :
    ∀ c ∈ (scan false t xs).kept, isSeparator c = false := by
  induction xs generalizing t with
  | nil => exact hkept
  | cons c xs ih =>
    rw [List.mem_cons, not_or] at hxs
    have hne : (c == quote) = false := by simpa using Ne.symm hxs.1
    rw [scan]
    split_ifs with hzero hpair
    · exact hkept
    · simp [hquotes] at hpair
    · refine ih hxs.2 (by rw [step_quotes, hquotes, hne]; rfl) ?_
      unfold step
      simp only [hquotes, hne, Bool.not_false, Bool.true_and, Bool.false_and, Bool.false_eq_true,
        if_false]
      split_ifs with hsemi hline
      · rwa [endField_kept]
      · rwa [endRow_kept]
      · intro d hd
        rw [pushChar_kept, List.mem_append, List.mem_singleton] at hd
        rcases hd with hd | rfl
        · exact hkept d hd
        · simp only [Bool.or_eq_true, not_or, Bool.not_eq_true] at hsemi hline
          simp [isSeparator, hsemi, hline]

/-- Zeros are not kept, since one ends the loop. -/
theorem zero_notMem_kept (skip : Bool) {xs : Bytes} (h : 0 ∉ t.kept) :
    0 ∉ (scan skip t xs).kept := by
  have hpush (u : Tokens) (hu : 0 ∉ u.kept) {c : Byte} (hc : c ≠ 0) : 0 ∉ (u.pushChar c).kept := by
    rw [pushChar_kept, List.mem_append, List.mem_singleton, not_or]
    exact ⟨hu, Ne.symm hc⟩
  induction xs generalizing skip t with
  | nil => cases skip <;> exact h
  | cons c xs ih =>
    cases skip with
    | true => exact ih false h
    | false =>
      rw [scan]
      split_ifs with hzero
      · exact h
      · exact ih true (hpush t h hzero)
      · refine ih false ?_
        rcases step_kept (t := t) c with hkept | ⟨-, hkept⟩
        · rwa [hkept]
        · rw [hkept, ← pushChar_kept]
          exact hpush t h hzero

theorem sublist_kept {row : List Bytes} (h : row ∈ t.all) : row.flatten.Sublist t.kept := by
  rcases List.mem_append.mp h with h | h
  · have hrows := List.sublist_flatten_of_mem h
    have hfield := (List.sublist_append_left t.rows.flatten t.row)
    exact ((hrows.trans hfield).flatten).trans (List.sublist_append_left _ _)
  · obtain rfl := List.mem_singleton.mp h
    exact ((List.sublist_append_right t.rows.flatten t.row).flatten).trans
      (List.sublist_append_left _ _)

end Tokens

/-- `QtLogBook::tokenize`: a last field that no separator ends is kept, unless it is empty. The
position is counted without the wrap of its `unsigned int`. -/
def QtLogBook.tokenize (str : Bytes) : List (List Bytes) :=
  let tokens := Tokens.scan false {} str
  (if tokens.field.isEmpty then tokens else tokens.endField).all

end Hamlog.Wire
