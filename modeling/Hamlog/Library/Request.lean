import Hamlog.Wire.CharClass

/-! # Requests of the client library

`HAMRequest` of `request.c` and the text that `ham_request_get_data` prints.
-/
namespace Hamlog.Library
open Foundation Wire

/-- `HAMRequest`; `none` is a NULL content. -/
structure HAMRequest where
  method : Bytes
  uri : Bytes
  content : Option Bytes := none
  headers : List Header := []
  deriving DecidableEq, Repr

/-- `(int) strlen(content)`, a conversion to 32 bits. -/
def intOfLength (length : ℕ) : ℤ := (length : ℤ).bmod (2 ^ 32)

/-- What is printed behind the headers, before the final line end. -/
def contentText : Option Bytes → Bytes
  | none => []
  | some content =>
    bytes "Content-Length: " ++ decimalInt (intOfLength content.length) ++ crlf ++ crlf ++ content

/-- The characters that `ham_request_get_data` writes, without the terminating zero. -/
def hamRequestGetData (request : HAMRequest) : Bytes :=
  request.method ++ [ch ' '] ++ request.uri ++ bytes " HTTP/1.1\r\n" ++
    request.headers.flatMap headerLine ++ contentText request.content ++ crlf

/-- The header that goes with a content. -/
def contentHeader (content : Bytes) : Header :=
  ⟨contentLengthName, decimalInt (intOfLength content.length)⟩

theorem contentText_some (content : Bytes) :
    contentText (some content) = headerLine (contentHeader content) ++ crlf ++ content := by
  have h : bytes "Content-Length: " = contentLengthName ++ bytes ": " := by decide
  simp [contentText, headerLine, contentHeader, h]

theorem isControl_of_mem_decimalInt {n : ℤ} {b : Byte} (h : b ∈ decimalInt n) :
    isControl b = false := by
  cases n with
  | ofNat n => exact isControl_of_isDigit (isDigit_of_mem_decimal h)
  | negSucc n =>
    rcases List.mem_cons.mp h with rfl | h
    · decide
    · exact isControl_of_isDigit (isDigit_of_mem_decimal h)

theorem contentHeader_clean (content : Bytes) : (contentHeader content).Clean := by
  refine ⟨by simp only [contentHeader]; decide, contentLengthName_token, fun c hc => ?_⟩
  simp only [contentHeader] at hc
  exact isControl_of_mem_decimalInt hc

end Hamlog.Library
