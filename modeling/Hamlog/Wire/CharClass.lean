import Hamlog.Foundation.Bytes

/-! # Character classes of the two HTTP parsers

The server's `RequestParser` and the client's `HAMParser` declare the same four
predicates over `int`. They are applied to a signed `char`, so a byte from 128
on is a negative argument: no character, no control and no special.
-/
namespace Hamlog.Wire
open Foundation

def isChar (c : Byte) : Bool := c < 128

def isControl (c : Byte) : Bool := c ≤ 31 || c == 127

/-- The separators of the header grammar: `34` is the double quote and `92` the backslash. -/
def isSpecial (c : Byte) : Bool :=
  c ∈ [ch '(', ch ')', ch '<', ch '>', ch '@', ch ',', ch ';', ch ':', 92, 34, ch '/',
    ch '[', ch ']', ch '?', ch '=', ch '{', ch '}', ch ' ', ch '\t']

def isDigit (c : Byte) : Bool := ch '0' ≤ c && c ≤ ch '9'

def cr : Byte := ch '\r'
def lf : Byte := ch '\n'

/-- The double quote. -/
def quote : Byte := 34

def crlf : Bytes := [cr, lf]

/-- A byte that may stand in a method or in a header name. -/
def isToken (c : Byte) : Bool := isChar c && !isControl c && !isSpecial c

/-- A name and a value, as both programs store the headers of their messages. -/
structure Header where
  name : Bytes
  value : Bytes
  deriving DecidableEq, Repr

/-- The header whose presence both parsers look up at the blank line. -/
def contentLengthName : Bytes := bytes "Content-Length"

theorem contentLengthName_token : ∀ c ∈ contentLengthName, isToken c :=
  List.all_eq_true.mp (by decide)

/-- The line `name: value` that both programs print for a header. -/
def headerLine (header : Header) : Bytes := header.name ++ bytes ": " ++ header.value ++ crlf

/-- A header the wire format can carry: a token as name and a value without control bytes. -/
structure Header.Clean (h : Header) : Prop where
  name_ne_nil : h.name ≠ []
  name_token : ∀ c ∈ h.name, isToken c
  value_clean : ∀ c ∈ h.value, isControl c = false

instance (h : Header) : Decidable h.Clean :=
  decidable_of_iff
    (h.name ≠ [] ∧ h.name.all isToken = true ∧ h.value.all (fun c => !isControl c) = true)
    ⟨fun ⟨a, b, c⟩ => ⟨a, List.all_eq_true.mp b, by simpa using c⟩,
      fun ⟨a, b, c⟩ => ⟨a, List.all_eq_true.mpr b, by simpa using c⟩⟩

theorem isToken_iff {c : Byte} :
    isToken c ↔ isChar c = true ∧ isControl c = false ∧ isSpecial c = false := by
  simp [isToken, and_assoc]

theorem ne_of_isToken {c d : Byte} (hc : isToken c) (hd : isToken d = false) : c ≠ d := by
  rintro rfl
  simp [hd] at hc

theorem ne_of_isControl {c d : Byte} (hc : isControl c = false) (hd : isControl d = true) :
    c ≠ d := by
  rintro rfl
  simp [hd] at hc

theorem isDigit_of_mem_decimal {n : ℕ} {b : Byte} (h : b ∈ decimal n) : isDigit b = true := by
  simpa [isDigit] using decimal_mem_range h

theorem isControl_of_isDigit {c : Byte} (h : isDigit c = true) : isControl c = false := by
  simp only [isDigit, Bool.and_eq_true, decide_eq_true_eq, UInt8.le_iff_toNat_le] at h
  have h0 : (ch '0').toNat = 48 := by decide
  have h9 : (ch '9').toNat = 57 := by decide
  rw [h0, h9] at h
  have hc : ¬ c ≤ 31 := by
    rw [UInt8.le_iff_toNat_le]
    have : (31 : UInt8).toNat = 31 := rfl
    omega
  have hd : c ≠ 127 := by
    rintro rfl
    simp at h
  simp [isControl, hc, hd]

end Hamlog.Wire
