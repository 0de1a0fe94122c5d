import Mathlib.Data.List.Basic
import Mathlib.Data.List.TakeWhile
import Mathlib.Data.Int.Basic
import Mathlib.Tactic

/-! # Byte strings and decimal text

Strings of the modelled programs are lists of bytes. ASCII literals are read
character by character, C strings end at their first zero byte, and numbers
are printed in decimal without sign or leading zeros.
-/
namespace Hamlog.Foundation

abbrev Byte := UInt8
abbrev Bytes := List Byte

/-- The byte of an ASCII character. -/
def ch (c : Char) : Byte := c.toUInt8

def bytes (s : String) : Bytes := s.toList.map ch

/-- A property of the bytes of a text is decided along the text, not over all bytes there are. -/
instance (priority := 2000) decidableForallByte {p : Byte → Prop} [DecidablePred p] (xs : Bytes) :
    Decidable (∀ c ∈ xs, p c) :=
  List.decidableBAll p xs

/-- The part of a buffer that string functions of C read: everything before the first zero byte. -/
def cstr (xs : Bytes) : Bytes := xs.takeWhile (· ≠ 0)

theorem cstr_of_notMem {xs : Bytes} (h : 0 ∉ xs) : cstr xs = xs := by
  induction xs with
  | nil => rfl
  | cons b xs ih =>
    simp only [List.mem_cons, not_or] at h
    rw [cstr, List.takeWhile_cons_of_pos (by simpa using Ne.symm h.1)]
    exact congrArg _ (ih h.2)

theorem cstr_append {xs : Bytes} (h : 0 ∉ xs) (ys : Bytes) : cstr (xs ++ ys) = xs ++ cstr ys := by
  rw [cstr, List.takeWhile_append_of_pos]
  · rfl
  · intro c hc
    simpa using fun hzero : c = 0 => h (hzero ▸ hc)

theorem zero_notMem_cstr (xs : Bytes) : 0 ∉ cstr xs := by
  induction xs with
  | nil => simp [cstr]
  | cons b xs ih =>
    by_cases hb : b = 0
    · simp [cstr, hb]
    · simpa [cstr, hb, Ne.symm hb] using ih

def decimal (n : ℕ) : Bytes := (Nat.toDigits 10 n).map ch

/-- Decimal text of a signed number, as `%d` prints it. -/
def decimalInt : ℤ → Bytes
  | .ofNat n => decimal n
  | .negSucc n => ch '-' :: decimal (n + 1)

/-- The number a text of decimal digits stands for. -/
def decimalValue (text : Bytes) : ℕ := Nat.ofDigitChars 10 (text.map Char.ofUInt8) 0

/-- `isspace` in the C locale. -/
def isSpace (c : Byte) : Bool := c == ch ' ' || (9 ≤ c && c ≤ 13)

/-- `atoi`: white space, an optional sign, and the digits up to the first other byte. -/
def atoi (text : Bytes) : ℤ :=
  let number (digits : Bytes) : ℕ :=
    decimalValue (digits.takeWhile fun c => ch '0' ≤ c && c ≤ ch '9')
  match text.dropWhile isSpace with
  | [] => 0
  | c :: rest =>
    if c = ch '-' then -(number rest) else if c = ch '+' then number rest else number (c :: rest)

private theorem digit_cases {c : Char} (h : c.isDigit = true) : c ∈ "0123456789".toList := by
  simp only [Char.isDigit, Bool.and_eq_true, decide_eq_true_eq] at h
  have h1 : 48 ≤ c.toNat := UInt32.le_iff_toNat_le.mp h.1
  have h2 : c.toNat ≤ 57 := UInt32.le_iff_toNat_le.mp h.2
  rw [← Char.ofNat_toNat c]
  generalize c.toNat = n at h1 h2
  interval_cases n <;> decide

private theorem ofUInt8_ch_digit {c : Char} (h : c ∈ "0123456789".toList) :
    Char.ofUInt8 (ch c) = c := by
  have hall : "0123456789".toList.all (fun c => Char.ofUInt8 (ch c) = c) = true := by decide
  simpa using List.all_eq_true.mp hall c h

private theorem ch_digit_range {c : Char} (h : c ∈ "0123456789".toList) :
    ch '0' ≤ ch c ∧ ch c ≤ ch '9' := by
  have hall : "0123456789".toList.all (fun c => ch '0' ≤ ch c ∧ ch c ≤ ch '9') = true := by decide
  exact decide_eq_true_eq.mp (List.all_eq_true.mp hall c h)

theorem decimalValue_decimal (n : ℕ) : decimalValue (decimal n) = n := by
  have hmap : (decimal n).map Char.ofUInt8 = Nat.toDigits 10 n := by
    rw [decimal, List.map_map]
    conv_rhs => rw [← List.map_id (Nat.toDigits 10 n)]
    apply List.map_congr_left
    intro c hc
    exact ofUInt8_ch_digit
      (digit_cases (Nat.isDigit_of_mem_toDigits (by norm_num) (by norm_num) hc))
  rw [decimalValue, hmap, Nat.ofDigitChars_ten_toDigits]

theorem decimal_injective : Function.Injective decimal :=
  Function.LeftInverse.injective decimalValue_decimal

theorem decimal_ne_nil (n : ℕ) : decimal n ≠ [] := by
  simp [decimal, Nat.toDigits_ne_nil]

theorem decimal_mem_range {n : ℕ} {b : Byte} (h : b ∈ decimal n) : ch '0' ≤ b ∧ b ≤ ch '9' := by
  obtain ⟨c, hc, rfl⟩ := List.mem_map.mp h
  exact ch_digit_range
    (digit_cases (Nat.isDigit_of_mem_toDigits (by norm_num) (by norm_num) hc))

theorem atoi_decimal (n : ℕ) : atoi (decimal n) = n := by
  obtain ⟨c, rest, hdecimal⟩ := List.exists_cons_of_ne_nil (decimal_ne_nil n)
  have hc := decimal_mem_range (hdecimal ▸ List.mem_cons_self : c ∈ decimal n)
  have hspace : isSpace c = false := by
    rw [Bool.eq_false_iff]
    intro h
    rw [isSpace, Bool.or_eq_true, beq_iff_eq, Bool.and_eq_true, decide_eq_true_eq,
      decide_eq_true_eq] at h
    rcases h with rfl | ⟨-, h⟩
    · exact absurd hc.1 (by decide)
    · exact absurd (UInt8.le_trans hc.1 h) (by decide)
  have hsign : c ≠ ch '-' ∧ c ≠ ch '+' :=
    ⟨fun h => absurd (h ▸ hc.1) (by decide), fun h => absurd (h ▸ hc.1) (by decide)⟩
  have htake : (decimal n).takeWhile (fun c => ch '0' ≤ c && c ≤ ch '9') = decimal n :=
    List.takeWhile_eq_self_iff.mpr fun b hb => by simpa using decimal_mem_range hb
  rw [atoi, hdecimal, List.dropWhile_cons_of_neg (by simp [hspace])]
  simp only [hsign.1, hsign.2, if_false]
  rw [← hdecimal, htake, decimalValue_decimal]

theorem zero_notMem_decimal (n : ℕ) : 0 ∉ decimal n := fun h =>
  absurd (decimal_mem_range h).1 (by decide)

theorem cstr_decimal (n : ℕ) : cstr (decimal n) = decimal n :=
  cstr_of_notMem (zero_notMem_decimal n)

theorem cstr_decimalInt (n : ℤ) : cstr (decimalInt n) = decimalInt n := by
  refine cstr_of_notMem ?_
  cases n with
  | ofNat n => exact zero_notMem_decimal n
  | negSucc n =>
    intro hzero
    rcases List.mem_cons.mp hzero with hzero | hzero
    · exact absurd hzero (by decide)
    · exact zero_notMem_decimal _ hzero

theorem length_decimal_le {n k : ℕ} (hk : 0 < k) (h : n < 10 ^ k) : (decimal n).length ≤ k := by
  rw [decimal, List.length_map]
  exact (Nat.length_toDigits_le_iff (by norm_num) hk).mpr h

/-- Only zero is printed as the single digit `0`. -/
theorem decimal_eq_zero_text {n : ℕ} : decimal n = bytes "0" ↔ n = 0 := by
  have h0 : decimal 0 = bytes "0" := by decide
  rw [← h0, decimal_injective.eq_iff]

end Hamlog.Foundation
