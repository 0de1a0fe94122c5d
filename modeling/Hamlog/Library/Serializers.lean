import Hamlog.Foundation.Printing
import Hamlog.Library.CsvWriter
import Hamlog.Library.Parser
import Hamlog.Library.Request

/-! # The sizes of printed texts

`ham_request_get_data`, `ham_reply_get_dump` and `ham_csv_from_list` sum up a
size, allocate a block of it, and print into the block. The sizes are counted by
hand in the source, apart from what is printed.
-/
namespace Hamlog.Library
open Foundation Wire Printer

def strlen (text : Bytes) : ℕ := (cstr text).length

/-- The texts of a header as the library reads them. -/
def cHeader (header : Header) : Header := ⟨cstr header.name, cstr header.value⟩

/-! ## Requests -/

/-- An addition to an `int`. -/
def addInt (size : ℤ) (n : ℕ) : ℤ := (size + n).bmod (2 ^ 32)

/-- The size that `ham_request_get_data` computes, an `int`. -/
def hamRequestGetDataSize (request : HAMRequest) : ℤ :=
  let size := addInt 0 (strlen request.method + strlen request.uri + 14 + 1)
  let size := request.headers.foldl (fun size header =>
    addInt size (strlen header.name + strlen header.value + 2 + 2)) size
  let size := match request.content with
    | none => size
    | some content =>
      addInt (addInt (addInt size (strlen content)) (strlen (bytes "Content-Length: ") + 5)) 6
  addInt size 2

/-- The same sum, without a bound on integers. -/
def hamRequestGetDataSum (request : HAMRequest) : ℕ :=
  strlen request.method + strlen request.uri + 14 + 1 +
    (request.headers.map fun header => strlen header.name + strlen header.value + 2 + 2).sum +
    (match request.content with
    | none => 0
    | some content => strlen content + (strlen (bytes "Content-Length: ") + 5) + 6) + 2

/-- The `sprintf` of a content that is not NULL. -/
def printContent (s : Printer Byte) : Option Bytes → Except WalkFault (Printer Byte)
  | none => pure s
  | some content =>
    print 0 s (bytes "Content-Length: " ++ decimalInt (intOfLength (strlen content)) ++
      bytes "\r\n\r\n" ++ cstr content)

/-- The second pass of `ham_request_get_data`, into the block `data`. -/
def hamRequestGetDataAt (request : HAMRequest) (data : Bytes) : Except WalkFault Bytes := do
  let s ← print 0 ⟨data, 0⟩
    (cstr request.method ++ bytes " " ++ cstr request.uri ++ bytes " HTTP/1.1\r\n")
  let s ← request.headers.foldlM (fun s header =>
    print 0 s (cstr header.name ++ bytes ": " ++ cstr header.value ++ bytes "\r\n")) s
  let s ← printContent s request.content
  let s ← print 0 s (bytes "\r\n")
  return s.mem

/-- The request with its texts as the library reads them. -/
def cRequest (request : HAMRequest) : HAMRequest where
  method := cstr request.method
  uri := cstr request.uri
  content := request.content.map cstr
  headers := request.headers.map cHeader

/-! ## Replies -/

/-- The size that `ham_reply_get_dump` computes. An `unsigned long` counts more bytes than there
are places. -/
def hamReplyGetDumpSize (reply : HAMReply) : ℕ :=
  let size := strlen (bytes "   status=\n   content=\n   Headers:\n")
  let size := size + (3 + strlen reply.content)
  let size := reply.headers.foldl (fun size header =>
    size + (strlen (bytes "       : \n") + strlen header.name + strlen header.value)) size
  size + 1

/-- The second pass of `ham_reply_get_dump`, into the block `ret`. The content of a finished reply
ends with a zero. -/
def hamReplyGetDumpAt (reply : HAMReply) (ret : Bytes) : Except WalkFault Bytes := do
  let s ← print 0 ⟨ret, 0⟩ (bytes "   status=" ++ decimal reply.status ++ bytes "\n")
  let s ← print 0 s (bytes "   content=" ++ cstr reply.content ++ bytes "\n")
  let s ← print 0 s (bytes "   Headers:\n")
  let s ← reply.headers.foldlM (fun s header =>
    print 0 s (bytes "       " ++ cstr header.name ++ bytes ": " ++ cstr header.value ++
      bytes "\n")) s
  return s.mem

/-- The reply with its headers as the library reads them. -/
def cReply (reply : HAMReply) : HAMReply := { reply with headers := reply.headers.map cHeader }

/-! ## Tables -/

/-- The size that `ham_csv_from_list` computes, an `unsigned long` as well. -/
def hamCsvFromListSize (parsed : List (List Bytes)) : ℕ :=
  parsed.foldl (fun length line =>
    line.foldl (fun length field => length + (strlen field + 1)) length + 1) 0 + 1

/-- The second pass of `ham_csv_from_list`, into the block `res`: `strcpy`, and a `;` in the place
of its zero. -/
def hamCsvFromListAt (parsed : List (List Bytes)) (res : Bytes) : Except WalkFault Bytes := do
  let s ← parsed.foldlM (fun s line => do
    let s ← line.foldlM (fun s field => do
      let s ← print 0 s (cstr field)
      put s (ch ';')) s
    put s lf) ⟨res, 0⟩
  let s ← put s 0
  return s.mem

/-- A text and its zero have a place in every block of the size, and are what a second pass leaves
at the front of the block, without an access outside. -/
structure FitsIn (size : ℕ) (text : Bytes) (pass : Bytes → Except WalkFault Bytes) : Prop where
  room : text.length + 1 ≤ size
  inside : ∀ block : Bytes, block.length = size → ∃ rest, pass block = .ok (text ++ 0 :: rest)

/-- A loop over `bs` that adds `g b` to a count, in whatever form it holds the count. -/
theorem foldl_counts {σ β : Type} {f : σ → β → σ} (F : ℕ → σ) (g : β → ℕ)
    (hf : ∀ n b, f (F n) b = F (n + g b)) (bs : List β) (n : ℕ) :
    bs.foldl f (F n) = F (n + (bs.map g).sum) := by
  induction bs generalizing n with
  | nil => rw [List.foldl_nil, List.map_nil, List.sum_nil, Nat.add_zero]
  | cons b bs ih =>
    rw [List.foldl_cons, hf, ih, List.map_cons, List.sum_cons, Nat.add_assoc]

/-! ## Requests fit -/

theorem addInt_intOfLength (n m : ℕ) : addInt (intOfLength n) m = intOfLength (n + m) := by
  unfold addInt intOfLength
  rw [Int.bmod_add_bmod, Int.natCast_add]

theorem foldl_addInt {β : Type} (g : β → ℕ) (bs : List β) (n : ℕ) :
    bs.foldl (fun size b => addInt size (g b)) (intOfLength n) =
      intOfLength (n + (bs.map g).sum) := by
  rw [foldl_counts intOfLength g]
  intro n b
  rw [addInt_intOfLength]

theorem hamRequestGetDataSize_eq_intOfLength (request : HAMRequest) :
    hamRequestGetDataSize request = intOfLength (hamRequestGetDataSum request) := by
  have hzero : (0 : ℤ) = intOfLength 0 := by decide
  unfold hamRequestGetDataSize hamRequestGetDataSum
  rw [hzero, addInt_intOfLength, Nat.zero_add]
  dsimp only
  rw [foldl_addInt]
  cases request.content with
  | none => dsimp only; rw [addInt_intOfLength, Nat.add_zero]
  | some content =>
    dsimp only
    rw [addInt_intOfLength, addInt_intOfLength, addInt_intOfLength, addInt_intOfLength]
    simp only [Nat.add_assoc]

theorem intOfLength_eq {n : ℕ} (h : n < 2 ^ 31) : intOfLength n = n := by
  unfold intOfLength
  exact Int.bmod_eq_of_le (by omega) (by omega)

theorem length_headerLine_cHeader (header : Header) :
    (headerLine (cHeader header)).length = strlen header.name + strlen header.value + 2 + 2 := by
  have hsep : (bytes ": ").length = 2 := by decide
  have hend : crlf.length = 2 := rfl
  simp only [headerLine, cHeader, strlen, List.length_append, hsep, hend]
  omega

theorem length_headerLines_cHeader (headers : List Header) :
    ((headers.map cHeader).flatMap headerLine).length =
      (headers.map fun header => strlen header.name + strlen header.value + 2 + 2).sum := by
  rw [List.length_flatMap, List.map_map]
  exact congrArg List.sum (List.map_congr_left fun header _ => length_headerLine_cHeader header)

theorem length_contentText_le {content : Bytes} (hshort : content.length < 10 ^ 9) :
    (contentText (some content)).length ≤ content.length + 29 := by
  have hname : (bytes "Content-Length: ").length = 16 := by decide
  have hend : crlf.length = 2 := rfl
  have hdigits : (decimalInt (intOfLength content.length)).length ≤ 9 := by
    rw [intOfLength_eq (by omega)]
    exact length_decimal_le (by decide) hshort
  simp only [contentText, List.length_append, hname, hend]
  omega

/-- Of the 27 bytes for the header of the content, 20 are for what is around the digits. With the
three bytes that the first line leaves, less one for the zero, there is room for nine digits. -/
theorem length_hamRequestGetData_lt {request : HAMRequest}
    (hshort : ∀ content ∈ request.content, strlen content < 10 ^ 9) :
    (hamRequestGetData (cRequest request)).length < hamRequestGetDataSum request := by
  have hversion : (bytes " HTTP/1.1\r\n").length = 11 := by decide
  have hend : crlf.length = 2 := rfl
  have hname : strlen (bytes "Content-Length: ") = 16 := by decide
  have hcontent : (contentText (request.content.map cstr)).length ≤
      (match request.content with
      | none => 0
      | some content => strlen content + (strlen (bytes "Content-Length: ") + 5) + 6) + 2 := by
    cases hc : request.content with
    | none => exact Nat.zero_le _
    | some content =>
      have hlength := length_contentText_le (hshort content hc)
      dsimp only [Option.map_some]
      rw [hname]
      exact hlength
  simp only [hamRequestGetData, hamRequestGetDataSum, cRequest, List.length_append,
    length_headerLines_cHeader, hversion, hend, List.length_singleton]
  simp only [strlen] at hcontent ⊢
  omega

theorem writes_printContent {n : ℕ} (content : Option Bytes) :
    Writes n (Printed n 0) (printContent · content) (contentText (content.map cstr)) := by
  cases content with
  | none => exact writes_pure
  | some content =>
    have hends : bytes "\r\n\r\n" = crlf ++ crlf := by decide
    simp only [printContent, hends, ← List.append_assoc]
    exact writes_print 0 (contentText (some (cstr content)))

theorem hamRequestGetDataAt_eq {request : HAMRequest} {data : Bytes}
    (hroom : (hamRequestGetData (cRequest request)).length < data.length) :
    ∃ rest, hamRequestGetDataAt request data =
      .ok (hamRequestGetData (cRequest request) ++ 0 :: rest) := by
  let first := cstr request.method ++ bytes " " ++ cstr request.uri ++ bytes " HTTP/1.1\r\n"
  let line : Header → Bytes :=
    fun header => cstr header.name ++ bytes ": " ++ cstr header.value ++ bytes "\r\n"
  have htext : hamRequestGetData (cRequest request) = first ++ (request.headers.flatMap line ++
      (contentText (request.content.map cstr) ++ bytes "\r\n")) := by
    have hend : crlf = bytes "\r\n" := by decide
    have hspace : [ch ' '] = bytes " " := by decide
    simp only [hamRequestGetData, cRequest, List.flatMap_map, hend, hspace, first,
      List.append_assoc]
    rfl
  rw [htext] at hroom ⊢
  have hheaders := writes_foldlM (n := data.length) (fun header => writes_print 0 (line header))
    request.headers
  obtain ⟨rest, hrest⟩ := (hheaders.andThen ((writes_printContent request.content).andThen
    (writes_print 0 (bytes "\r\n")))).fromFront first hroom
  refine ⟨rest, ?_⟩
  rw [← hrest]
  simp only [hamRequestGetDataAt, bind_assoc]
  rfl

/-! ## Replies fit -/

def dumpLine (header : Header) : Bytes :=
  bytes "       " ++ header.name ++ bytes ": " ++ header.value ++ bytes "\n"

theorem hamReplyGetDump_cReply (reply : HAMReply) :
    hamReplyGetDump (cReply reply) = bytes "   status=" ++ decimal reply.status ++
      bytes "\n   content=" ++ cstr reply.content ++ bytes "\n   Headers:\n" ++
        (cReply reply).headers.flatMap dumpLine :=
  rfl

theorem length_dumpLine_cHeader (header : Header) :
    (dumpLine (cHeader header)).length =
      strlen (bytes "       : \n") + strlen header.name + strlen header.value := by
  have hindent : (bytes "       ").length = 7 := by decide
  have hsep : (bytes ": ").length = 2 := by decide
  have hend : (bytes "\n").length = 1 := by decide
  have hline : strlen (bytes "       : \n") = 10 := by decide
  rw [hline]
  simp only [dumpLine, cHeader, strlen, List.length_append, hindent, hsep, hend]
  omega

theorem hamReplyGetDumpSize_eq (reply : HAMReply) :
    hamReplyGetDumpSize reply =
      35 + (3 + strlen reply.content) + ((cReply reply).headers.flatMap dumpLine).length + 1 := by
  have hfixed : strlen (bytes "   status=\n   content=\n   Headers:\n") = 35 := by decide
  have hloop (n : ℕ) : reply.headers.foldl (fun size header =>
      size + (strlen (bytes "       : \n") + strlen header.name + strlen header.value)) n =
        n + (reply.headers.map fun header => (dumpLine (cHeader header)).length).sum := by
    apply foldl_counts id
    intro n header
    rw [length_dumpLine_cHeader]
    rfl
  unfold hamReplyGetDumpSize cReply
  dsimp only
  rw [hloop, hfixed, List.length_flatMap, List.map_map]
  rfl

theorem length_hamReplyGetDump_lt {reply : HAMReply} (hstatus : reply.status ≤ 999) :
    (hamReplyGetDump (cReply reply)).length < hamReplyGetDumpSize reply := by
  have hdigits : (decimal reply.status).length ≤ 3 := length_decimal_le (by decide) (by omega)
  have hstatusText : (bytes "   status=").length = 10 := by decide
  have hcontentText : (bytes "\n   content=").length = 12 := by decide
  have hheadersText : (bytes "\n   Headers:\n").length = 13 := by decide
  rw [hamReplyGetDump_cReply, hamReplyGetDumpSize_eq]
  simp only [List.length_append, strlen, hstatusText, hcontentText, hheadersText]
  omega

theorem hamReplyGetDumpAt_eq {reply : HAMReply} {ret : Bytes}
    (hroom : (hamReplyGetDump (cReply reply)).length < ret.length) :
    ∃ rest, hamReplyGetDumpAt reply ret = .ok (hamReplyGetDump (cReply reply) ++ 0 :: rest) := by
  let status := bytes "   status=" ++ decimal reply.status ++ bytes "\n"
  let content := bytes "   content=" ++ cstr reply.content ++ bytes "\n"
  let line : Header → Bytes := fun header => dumpLine (cHeader header)
  have htext : hamReplyGetDump (cReply reply) =
      status ++ (content ++ (bytes "   Headers:\n" ++ reply.headers.flatMap line)) := by
    have hcontentText : bytes "\n   content=" = bytes "\n" ++ bytes "   content=" := by decide
    have hheadersText : bytes "\n   Headers:\n" = bytes "\n" ++ bytes "   Headers:\n" := by decide
    rw [hamReplyGetDump_cReply, hcontentText, hheadersText]
    simp only [cReply, List.flatMap_map, status, content, line, List.append_assoc]
  rw [htext] at hroom ⊢
  have hheaders := writes_foldlM (n := ret.length) (fun header => writes_print 0 (line header))
    reply.headers
  obtain ⟨rest, hrest⟩ := ((writes_print 0 content).andThen
    ((writes_print 0 (bytes "   Headers:\n")).andThen hheaders)).fromFront status hroom
  refine ⟨rest, ?_⟩
  rw [← hrest]
  simp only [hamReplyGetDumpAt, bind_assoc]
  rfl

/-! ## Tables fit -/

theorem hamCsvFromListSize_eq (parsed : List (List Bytes)) :
    hamCsvFromListSize parsed = (hamCsvFromList parsed).length + 1 := by
  have hfields (line : List Bytes) (n : ℕ) :
      line.foldl (fun length field => length + (strlen field + 1)) n =
        n + (line.map fun field => strlen field + 1).sum := by
    apply foldl_counts id
    intro n field
    rfl
  have hline (line : List Bytes) :
      (writtenLine line).length = (line.map fun field => strlen field + 1).sum + 1 := by
    simp only [writtenLine, strlen, List.length_append, List.length_flatMap, List.length_singleton]
  have hlines (n : ℕ) : parsed.foldl (fun length line =>
      line.foldl (fun length field => length + (strlen field + 1)) length + 1) n =
        n + (parsed.map fun line => (writtenLine line).length).sum := by
    apply foldl_counts id
    intro n line
    dsimp only [id]
    rw [hfields, hline, Nat.add_assoc]
  unfold hamCsvFromListSize hamCsvFromList
  rw [hlines, List.length_flatMap, Nat.zero_add]

theorem writes_field {n : ℕ} (field : Bytes) :
    Writes n (Filled n) (fun s => print 0 s (cstr field) >>= (put · (ch ';')))
      (cstr field ++ [ch ';']) :=
  (writes_printFilled 0 (cstr field)).andThen (writes_put (ch ';'))

theorem writes_line {n : ℕ} (line : List Bytes) :
    Writes n (Filled n) (fun s =>
      line.foldlM (fun s field => print 0 s (cstr field) >>= (put · (ch ';'))) s >>= (put · lf))
        (writtenLine line) :=
  (writes_foldlM writes_field line).andThen (writes_put lf)

theorem hamCsvFromListAt_eq {parsed : List (List Bytes)} {res : Bytes}
    (hroom : (hamCsvFromList parsed).length < res.length) :
    ∃ rest, hamCsvFromListAt parsed res = .ok (hamCsvFromList parsed ++ 0 :: rest) := by
  unfold hamCsvFromList at hroom ⊢
  obtain ⟨s, hs, hlines⟩ := writes_foldlM writes_line parsed [] ⟨res, 0⟩ (filled_start res) hroom
  obtain ⟨rest, hwrite, -⟩ := hlines.write hroom 0
  refine ⟨rest, ?_⟩
  unfold hamCsvFromListAt
  dsimp only at hs
  rw [hs]
  simp only [put, hwrite, bind, Except.bind, pure, Except.pure, List.nil_append]

/-! ## The sizes are enough -/

/-- What the three functions write, their terminating zero included, stays in the block that they
allocate. -/
theorem serializers_fit :
    (∀ request : HAMRequest, (∀ content ∈ request.content, strlen content < 10 ^ 9) →
      hamRequestGetDataSum request < 2 ^ 31 →
        FitsIn (hamRequestGetDataSize request).toNat (hamRequestGetData (cRequest request))
          (hamRequestGetDataAt request)) ∧
    (∀ reply : HAMReply, reply.status ≤ 999 →
      FitsIn (hamReplyGetDumpSize reply) (hamReplyGetDump (cReply reply))
        (hamReplyGetDumpAt reply)) ∧
    (∀ parsed : List (List Bytes),
      FitsIn (hamCsvFromListSize parsed) (hamCsvFromList parsed) (hamCsvFromListAt parsed)) := by
  refine ⟨fun request hshort hsize => ?_, fun reply hstatus => ?_, fun parsed => ?_⟩
  · have hroom := length_hamRequestGetData_lt hshort
    have hint : (hamRequestGetDataSize request).toNat = hamRequestGetDataSum request := by
      rw [hamRequestGetDataSize_eq_intOfLength, intOfLength_eq hsize, Int.toNat_natCast]
    rw [hint]
    exact ⟨hroom, fun data hdata => hamRequestGetDataAt_eq (hdata ▸ hroom)⟩
  · have hroom := length_hamReplyGetDump_lt hstatus
    exact ⟨hroom, fun ret hret => hamReplyGetDumpAt_eq (hret ▸ hroom)⟩
  · have hsize := hamCsvFromListSize_eq parsed
    exact ⟨hsize.ge, fun res hres => hamCsvFromListAt_eq (by omega)⟩

theorem serializers_fit_sample :
    FitsIn 60 (bytes "PUT /a HTTP/1.1\r\nHost: b\r\nContent-Length: 2\r\n\r\nok\r\n")
      (hamRequestGetDataAt
        ⟨bytes "PUT", bytes "/a", some (bytes "ok"), [⟨bytes "Host", bytes "b"⟩]⟩) ∧
    FitsIn 55 (bytes "   status=200\n   content=ok\n   Headers:\n       Age: 1\n")
      (hamReplyGetDumpAt ⟨200, bytes "ok\x00", [⟨bytes "Age", bytes "1"⟩], true⟩) := by
  have hrequest := serializers_fit.1
    ⟨bytes "PUT", bytes "/a", some (bytes "ok"), [⟨bytes "Host", bytes "b"⟩]⟩ (by decide)
    (by decide)
  have hreply := serializers_fit.2.1
    ⟨200, bytes "ok\x00", [⟨bytes "Age", bytes "1"⟩], true⟩ (by decide)
  constructor
  · convert hrequest using 1 <;> decide
  · convert hreply using 1 <;> decide

end Hamlog.Library
