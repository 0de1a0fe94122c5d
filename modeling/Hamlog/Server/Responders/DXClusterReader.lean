import Hamlog.Server.Responders.DXCluster
import Hamlog.Wire.Csv

/-! # One read of the DX cluster

The loop of `handleDXClusterRead` turn by turn, with the errors that leave it, and
what it makes of a spot with all its parts: a read of a destroyed string, where
the tokens of the line would give the row of the announced header.
-/
namespace Hamlog.Server.DXCluster
open Foundation Wire

variable {tokenizer : Tokenizer}

/-! ## When the loop fails -/

theorem lineTurn_ne_endless (pendingData s : Bytes) :
    lineTurn tokenizer pendingData s ≠ .error .endless := by
  cases hspot : isSpot s with
  | false => simp [lineTurn_other hspot]
  | true =>
    rw [lineTurn, if_pos hspot]
    dsimp only
    rw [read_temporary]
    by_cases htext : beforeCrlf (s.drop 6) = []
    · rw [if_pos htext, Except.bind]
      split_ifs <;> simp
    · rw [if_neg htext, Except.bind]
      split_ifs <;> simp

/-- The loop ends on every text. -/
theorem lineLoop_ends {fuel : ℕ} {pendingData s : Bytes} (hfuel : s.length < fuel) :
    lineLoop tokenizer fuel pendingData s ≠ .error .endless := by
  induction fuel generalizing pendingData s with
  | zero => omega
  | succ fuel ih =>
    rw [lineLoop]
    by_cases hs : lf ∈ s
    · rw [if_neg (not_not.mpr hs)]
      cases hturn : lineTurn tokenizer pendingData s with
      | error fault =>
        intro hends
        cases hends
        exact lineTurn_ne_endless _ _ hturn
      | ok next =>
        have hlt := lineTurn_length hs hturn
        exact ih (by omega)
    · simp [hs]

/-- The texts from each spot on that the loop comes to. A line of the loop ends at its first line
feed, that of a spot at the first one behind its sixth byte. -/
def spotTexts : ℕ → Bytes → List Bytes
  | 0, _ => []
  | fuel + 1, s =>
    if lf ∉ s then []
    else if isSpot s then s :: spotTexts fuel (afterLine lf (s.drop 6))
    else spotTexts fuel (afterLine lf s)

def spots (s : Bytes) : List Bytes := spotTexts s.length s

/-- There are none of these texts, or rows are pending and each of them has six bytes and no others
in front of its first `"\r\n"` or its end. -/
structure Readable (pendingData : Bytes) (spots : List Bytes) : Prop where
  long : ∀ s ∈ spots, 6 ≤ s.length
  bare : ∀ s ∈ spots, beforeCrlf (s.drop 6) = []
  held : spots = [] ∨ pendingData ≠ []

theorem spotTexts_congr {fuel other : ℕ} {s : Bytes} (hfuel : s.length ≤ fuel)
    (hother : s.length ≤ other) : spotTexts fuel s = spotTexts other s := by
  induction fuel generalizing other s with
  | zero =>
    obtain rfl := List.length_eq_zero_iff.mp (Nat.le_zero.mp hfuel)
    cases other <;> simp [spotTexts]
  | succ fuel ih =>
    cases other with
    | zero =>
      obtain rfl := List.length_eq_zero_iff.mp (Nat.le_zero.mp hother)
      simp [spotTexts]
    | succ other =>
      by_cases hs : lf ∈ s
      · have hnext := length_afterLine_lt hs
        have hskipped := length_afterLine_drop_lt hs 6
        have hrest : spotTexts fuel (afterLine lf s) = spotTexts other (afterLine lf s) :=
          ih (by omega) (by omega)
        have hbehind : spotTexts fuel (afterLine lf (s.drop 6)) =
            spotTexts other (afterLine lf (s.drop 6)) := ih (by omega) (by omega)
        simp only [spotTexts, hrest, hbehind]
      · simp [spotTexts, hs]

theorem spots_turn {s : Bytes} (hs : lf ∈ s) :
    spots s =
      if isSpot s then s :: spots (afterLine lf (s.drop 6)) else spots (afterLine lf s) := by
  obtain ⟨n, hn⟩ := Nat.exists_eq_succ_of_ne_zero (Nat.ne_of_gt (List.length_pos_of_mem hs))
  have hnext := length_afterLine_lt hs
  have hskipped := length_afterLine_drop_lt hs 6
  rw [spots, hn, spotTexts, if_neg (not_not.mpr hs)]
  split_ifs
  · exact congrArg _ (spotTexts_congr (by omega) le_rfl)
  · exact spotTexts_congr (by omega) le_rfl

/-- Rows are pending behind every spot that the loop leaves behind. -/
theorem readable_cons {pendingData row s : Bytes} {rest : List Bytes} (hrow : row ≠ []) :
    Readable pendingData (s :: rest) ↔
      (6 ≤ s.length ∧ beforeCrlf (s.drop 6) = [] ∧ pendingData ≠ []) ∧ Readable row rest := by
  constructor
  · rintro ⟨hlong, hbare, hheld⟩
    exact ⟨⟨hlong s List.mem_cons_self, hbare s List.mem_cons_self,
        hheld.resolve_left (List.cons_ne_nil _ _)⟩,
      fun t ht => hlong t (List.mem_cons_of_mem _ ht),
      fun t ht => hbare t (List.mem_cons_of_mem _ ht), .inr hrow⟩
  · rintro ⟨⟨hs, htext, hheld⟩, hlong, hbare, -⟩
    exact ⟨List.forall_mem_cons.mpr ⟨hs, hlong⟩, List.forall_mem_cons.mpr ⟨htext, hbare⟩,
      .inr hheld⟩

theorem readText_eq_ok_iff (pendingData s : Bytes) :
    (∃ rows, readText tokenizer pendingData s = .ok rows) ↔ Readable pendingData (spots s) := by
  induction hn : s.length using Nat.strong_induction_on generalizing pendingData s with
  | _ n ih =>
    by_cases hs : lf ∈ s
    · rw [readText_turn hs, spots_turn hs]
      cases hspot : isSpot s with
      | true =>
        rw [if_pos rfl, readable_cons (List.concat_ne_nil lf pendingData.dropLast)]
        by_cases hgood : 6 ≤ s.length ∧ beforeCrlf (s.drop 6) = [] ∧ pendingData ≠ []
        · have hturn : lineTurn tokenizer pendingData s =
              .ok (pendingData.dropLast ++ [lf], afterLine lf (s.drop 6)) :=
            (lineTurn_spot hspot).mpr ⟨hgood, rfl⟩
          rw [hturn, and_iff_right hgood]
          exact ih _ (hn ▸ lineTurn_length hs hturn) _ _ rfl
        · refine iff_of_false ?_ fun h => hgood h.1
          rintro ⟨rows, hrows⟩
          cases hturn : lineTurn tokenizer pendingData s with
          | error fault => simp [hturn, Except.bind] at hrows
          | ok next => exact hgood ((lineTurn_spot hspot).mp hturn).1
      | false =>
        rw [if_neg Bool.false_ne_true, lineTurn_other hspot]
        exact ih _ (hn ▸ length_afterLine_lt hs) pendingData _ rfl
    · have hnone : spots s = [] := by
        rw [spots]
        cases s.length <;> simp [spotTexts, hs]
      rw [readText_unfinished hs, hnone]
      exact iff_of_true ⟨_, rfl⟩ ⟨by simp, by simp, .inl rfl⟩

/-- Without an error the handler comes to its next read: the loop ends without a fault, and its rows
are those that are pending at the read. -/
def ReachesRead (tokenizer : Tokenizer) (state : State) (data : DXClusterModuleData) : Prop :=
  ∃ rows, readText tokenizer data.pendingData data.response = .ok rows ∧
    handleDXClusterRead tokenizer state data false =
      { state with
        data := some { data with pendingData := rows, response := [] }
        operation := some .readLine }

/-- The loop ends on every buffer, and it fails exactly at a spot that is shorter than its fixed
beginning, that has a text, or in front of which no row is pending. -/
theorem reachesRead_iff (tokenizer : Tokenizer) (state : State) (data : DXClusterModuleData) :
    (∀ fuel > data.response.length,
        lineLoop tokenizer fuel data.pendingData data.response ≠ .error .endless) ∧
      (ReachesRead tokenizer state data ↔ Readable data.pendingData (spots data.response)) := by
  have hread : (∃ rows, readText tokenizer data.pendingData data.response = .ok rows) ↔
      Readable data.pendingData (spots data.response) := readText_eq_ok_iff _ _
  refine ⟨fun fuel hfuel => lineLoop_ends hfuel, Iff.trans ?_ hread⟩
  constructor
  · rintro ⟨rows, hrows, -⟩
    exact ⟨rows, hrows⟩
  · rintro ⟨rows, hrows⟩
    exact ⟨rows, hrows, by simp [handleDXClusterRead, hrows]⟩

/-- The substring behind a line of four bytes is out of range, and behind one of six bytes an empty
string is erased from. -/
theorem not_reachesRead_short :
    ¬ (∀ state data, ReachesRead blanks state data) ∧
      readText blanks [] (bytes "DX\r\n") = .error .outOfRange ∧
      readText blanks [] (bytes "DX de \r\n") = .error .eraseEmpty := by
  have hshort : readText blanks [] (bytes "DX\r\n") = .error .outOfRange := by decide
  refine ⟨fun h => ?_, hshort, by decide⟩
  obtain ⟨rows, hrows, -⟩ := h {} { response := bytes "DX\r\n" }
  cases hshort.symm.trans hrows

/-! ## The row of a spot -/

/-- The words of a spot line. Each but the last stands with the number of blanks behind it that it
could do without. -/
structure Spot where
  sender : Bytes × ℕ
  frequency : Bytes × ℕ
  call : Bytes × ℕ
  description : List (Bytes × ℕ) := []
  time : Bytes

namespace Spot

def words (spot : Spot) : List (Bytes × ℕ) :=
  spot.sender :: spot.frequency :: spot.call :: spot.description

def tokens (spot : Spot) : List Bytes := spot.words.map Prod.fst ++ [spot.time]

def text (spot : Spot) : Bytes :=
  spot.words.flatMap (fun word => word.1 ++ List.replicate (word.2 + 1) (ch ' ')) ++ spot.time

def line (spot : Spot) : Bytes := bytes "DX de " ++ (spot.text ++ crlf)

def fields (spot : Spot) : List Bytes :=
  [spot.sender.1.dropLast, spot.frequency.1, spot.call.1,
    spot.description.flatMap (fun word => word.1 ++ bytes " "), spot.time]

end Spot

/-- A token that is free of the separators of the line and of the row. -/
def IsToken (token : Bytes) : Prop :=
  token ≠ [] ∧ ∀ c ∈ token, c ∉ [ch ' ', ch ';', quote, lf, cr]

/-- The columns of the announced header. -/
def headerFields : List Bytes :=
  [bytes "sender", bytes "frequency", bytes "call", bytes "description", bytes "time"]

/-- A turn of the loop takes the line and appends a row, whatever is pending and behind the line,
and the row is read as the fields of the spot under those of the header. -/
def HasRow (tokenizer : Tokenizer) (spot : Spot) : Prop :=
  ∃ row,
    (∀ pendingData rest,
      lineTurn tokenizer pendingData (spot.line ++ rest) = .ok (pendingData ++ row, rest)) ∧
    (∀ state data, data.response = spot.line →
      handleDXClusterRead tokenizer state data false =
        { state with
          data := some { data with pendingData := data.pendingData ++ row, response := [] }
          operation := some .readLine }) ∧
    QtLogBook.tokenize (header ++ row) = [headerFields, spot.fields, []]

variable {spot : Spot}

/-- From the third token on the last one is told by its distance to the end, also when it is the
third. -/
theorem columns_description (words : List Bytes) (last : Bytes) {i : ℕ} (hi : 3 ≤ i) :
    columns (i + words.length + 1) i false (words ++ [last]) =
      words.flatMap (· ++ bytes " ") ++ bytes ";" ++ (last ++ bytes ";") := by
  induction words generalizing i with
  | nil =>
    rw [List.nil_append, columns, if_neg (by omega), if_neg (by simp), if_pos ⟨hi, rfl⟩, columns]
    simp
  | cons word words ih =>
    have hrest := ih (i := i + 1) (by omega)
    rw [show i + 1 + words.length + 1 = i + (word :: words).length + 1 by simp; omega] at hrest
    rw [List.cons_append, columns, if_neg (by omega), if_pos ⟨hi, by simp⟩, hrest]
    simp

/-- The columns of the tokens of a spot, each with a `;` behind it. -/
theorem spotColumns_tokens (spot : Spot) :
    spotColumns spot.tokens = Tokens.joined spot.fields ++ bytes ";" := by
  have hdescription := columns_description (spot.description.map Prod.fst) spot.time
    (Nat.le_refl 3)
  have hcount : spot.tokens.length = 3 + (spot.description.map Prod.fst).length + 1 := by
    simp [Spot.tokens, Spot.words]
    omega
  rw [spotColumns, hcount, Spot.tokens, Spot.words]
  simp only [List.map_cons, List.cons_append, columns, if_true, hdescription]
  simp [Spot.fields, Tokens.joined, List.intercalate, List.flatMap_map]

theorem lf_notMem_text (h : ∀ token ∈ spot.tokens, IsToken token) : lf ∉ spot.text := by
  have htoken {token : Bytes} (hmem : token ∈ spot.tokens) : lf ∉ token :=
    fun hlf => (h token hmem).2 lf hlf (by simp)
  rw [Spot.text, List.mem_append, List.mem_flatMap]
  rintro (⟨word, hword, hlf⟩ | hlf)
  · rcases List.mem_append.mp hlf with hlf | hlf
    · exact htoken (List.mem_append_left _ (List.mem_map_of_mem hword)) hlf
    · exact absurd (List.eq_of_mem_replicate hlf) (by decide)
  · exact htoken (List.mem_append_right _ List.mem_cons_self) hlf

theorem beforeCrlf_line {text rest : Bytes} (htext : lf ∉ text) :
    beforeCrlf (text ++ cr :: lf :: rest) = text := by
  induction text with
  | nil => simp [beforeCrlf, crlf]
  | cons c text ih =>
    simp only [List.mem_cons, not_or] at htext
    have hnext : crlf.isPrefixOf (c :: (text ++ cr :: lf :: rest)) = false := by
      cases text with
      | nil => simp [crlf, List.isPrefixOf, show lf ≠ cr by decide]
      | cons d text =>
        simp only [List.mem_cons, not_or] at htext
        simp [crlf, List.isPrefixOf, htext.2.1]
    rw [List.cons_append, beforeCrlf, hnext, if_neg (by simp), ih htext.2]

/-- The tokenizer is given the text of the line, which is not empty, in a destroyed string. -/
theorem lineTurn_line (h : ∀ token ∈ spot.tokens, IsToken token) (pendingData rest : Bytes) :
    lineTurn tokenizer pendingData (spot.line ++ rest) = .error .destroyed := by
  have hline : spot.line ++ rest = bytes "DX de " ++ (spot.text ++ cr :: lf :: rest) := by
    simp [Spot.line, crlf]
  have hspot : isSpot (spot.line ++ rest) = true := by
    rw [hline]
    simp [isSpot, bytes]
  have hlength : 6 ≤ (spot.line ++ rest).length := by
    rw [hline]
    simp [bytes]
  have hdrop : (spot.line ++ rest).drop 6 = spot.text ++ cr :: lf :: rest := by
    rw [hline]
    simp [bytes]
  have htext : spot.text ≠ [] := by
    have htime := (h spot.time (List.mem_append_right _ List.mem_cons_self)).1
    simp [Spot.text, htime]
  rw [lineTurn, if_pos hspot, if_neg (Nat.not_lt.mpr hlength)]
  dsimp only
  rw [hdrop, beforeCrlf_line (lf_notMem_text h), read_temporary, if_neg htext]
  rfl

theorem fields_plain (h : ∀ token ∈ spot.tokens, IsToken token ∧ 0 ∉ token) :
    ∀ field ∈ spot.fields, ∀ c ∈ field, Tokens.isPlain c := by
  have hplain {token : Bytes} (hmem : token ∈ spot.tokens) : ∀ c ∈ token, Tokens.isPlain c := by
    intro c hc
    obtain ⟨⟨-, htoken⟩, hzero⟩ := h token hmem
    have hbyte := htoken c hc
    simp only [List.mem_cons, List.not_mem_nil, not_or] at hbyte
    exact Tokens.isPlain_iff.mpr
      ⟨fun heq => hzero (heq ▸ hc), hbyte.2.2.1, hbyte.2.1, hbyte.2.2.2.1, hbyte.2.2.2.2.1⟩
  have hword {word : Bytes × ℕ} (hmem : word ∈ spot.words) : ∀ c ∈ word.1, Tokens.isPlain c :=
    hplain (List.mem_append_left _ (List.mem_map_of_mem hmem))
  simp only [Spot.fields, List.forall_mem_cons]
  refine ⟨fun c hc => hword (by simp [Spot.words]) c (List.mem_of_mem_dropLast hc),
    hword (by simp [Spot.words]), hword (by simp [Spot.words]), fun c hc => ?_,
    hplain (List.mem_append_right _ List.mem_cons_self), by simp⟩
  obtain ⟨word, hmem, hc⟩ := List.mem_flatMap.mp hc
  rcases List.mem_append.mp hc with hc | hc
  · exact hword (by simp [Spot.words, hmem]) c hc
  · obtain rfl : c = ch ' ' := by simpa [bytes] using hc
    decide

theorem tokenize_fields (h : ∀ token ∈ spot.tokens, IsToken token ∧ 0 ∉ token) :
    QtLogBook.tokenize (header ++ (Tokens.joined spot.fields ++ [lf])) =
      [headerFields, spot.fields, []] := by
  have hstands {fields : List Bytes} (hfields : ∀ field ∈ fields, ∀ c ∈ field, Tokens.isPlain c) :
      List.Forall₂ Tokens.Stands fields fields :=
    List.forall₂_same.mpr fun field hfield => Tokens.stands_plain (hfields field hfield)
  have hheader : header = Tokens.joined headerFields ++ [lf] := by decide
  have hplain : ∀ field ∈ headerFields, ∀ c ∈ field, Tokens.isPlain c := by decide
  have hscan : Tokens.scan false {} (header ++ (Tokens.joined spot.fields ++ [lf])) =
      { rows := [headerFields, spot.fields] } := by
    rw [hheader, List.append_assoc, List.singleton_append,
      Tokens.scan_line (hstands hplain) (List.cons_ne_nil _ _) rfl rfl,
      Tokens.scan_line (hstands (fields_plain h)) (List.cons_ne_nil _ _) rfl rfl]
    rfl
  rw [QtLogBook.tokenize, hscan]
  rfl

/-- From the tokens of a line the loop would make the row of the announced header, with any number
of words in the description. -/
theorem tokenize_spotColumns (spot : Spot) (h : ∀ token ∈ spot.tokens, IsToken token ∧ 0 ∉ token) :
    QtLogBook.tokenize (header ++ ((spotColumns spot.tokens).dropLast ++ [lf])) =
      [headerFields, spot.fields, []] := by
  rw [spotColumns_tokens, Tokens.bytes_semicolon, List.dropLast_concat]
  exact tokenize_fields h

/-- The line of a spot has no row: its tokens are read from a destroyed string, whatever is pending,
whatever is behind the line and whichever tokens the tokenizer finds in a text. -/
theorem not_hasRow_of_tokens (tokenizer : Tokenizer) (spot : Spot)
    (h : ∀ token ∈ spot.tokens, IsToken token) :
    ¬ HasRow tokenizer spot ∧ ∀ pendingData rest,
      lineTurn tokenizer pendingData (spot.line ++ rest) = .error .destroyed := by
  refine ⟨?_, lineTurn_line h⟩
  rintro ⟨row, hturn, -⟩
  cases (hturn [] []).symm.trans (lineTurn_line h [] [])

def sampleSpot : Spot where
  sender := (bytes "K1ABC:", 1)
  frequency := (bytes "14025.0", 1)
  call := (bytes "W1AW", 1)
  description := [(bytes "CQ", 0), (bytes "up", 0), (bytes "2", 1)]
  time := bytes "1200Z"

instance (token : Bytes) : Decidable (IsToken token) := inferInstanceAs (Decidable (_ ∧ _))

theorem not_hasRow_sampleSpot : sampleSpot.line = DXCluster.spot ∧ ¬ HasRow blanks sampleSpot :=
  ⟨by decide, (not_hasRow_of_tokens blanks sampleSpot (by decide)).1⟩

/-- A line as the cluster sends it. -/
theorem not_hasRow_spot :
    ¬ ∀ spot : Spot, (∀ token ∈ spot.tokens, IsToken token) → HasRow blanks spot := by
  intro h
  have htokens : ∀ token ∈ sampleSpot.tokens, IsToken token := by decide
  obtain ⟨row, hturn, -⟩ := h sampleSpot htokens
  cases (hturn [] []).symm.trans (lineTurn_line htokens [] [])

end Hamlog.Server.DXCluster
