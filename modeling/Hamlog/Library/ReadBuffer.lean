import Hamlog.Foundation.Cursor
import Hamlog.Library.Connection

/-! # The read buffer

`ham_connection_read_data` with the places of `read_buffer` that it accesses:
the terminator behind the bytes that were read, the bytes that the parser takes,
and the texts that it prints. Lengths are converted as in the source, so that a
failed read has the length -1. Within the buffer it is the function on the bytes
alone.
-/
namespace Hamlog.Library
open Foundation Wire

def readBufferSize : ℕ := 65535

abbrev ReadBuffer := { buffer : Bytes // buffer.length = readBufferSize }

/-- What `read` gives: `none` is an error, and there is no more than was asked for. -/
abbrev ReadResult := Option { data : Bytes // data.length ≤ readBufferSize }

/-- Why a read does not return: an access outside of `read_buffer`, one outside of the buffers of
the parser, or too little fuel. -/
inductive ReadFault where
  | readBuffer | parserBuffer | endless
  deriving DecidableEq, Repr

/-- A conversion to `unsigned long`. -/
def unsignedLong (n : ℤ) : ℕ := (n % 2 ^ 64).toNat

/-- The loop of `ham_parser_parse`, with `data` at the place `i`. -/
def parseAt (mem : Bytes) : ℕ → ℤ → ℕ → HAMParser → HAMReply →
    Except ReadFault (ℕ × HAMParser × HAMReply)
  | 0, _, parsed, parser, reply => .ok (parsed, parser, reply)
  | size + 1, i, parsed, parser, reply =>
    match Cursor.read mem i with
    | .error _ => .error .readBuffer
    | .ok input =>
      match hamParserConsume declared parser reply input with
      | .error .fault => .error .parserBuffer
      | .error .rejected => .ok (parsed, hamParserReset parser, reply)
      | .ok (parser, reply) =>
        if reply.finished then .ok (parsed, parser, reply)
        else parseAt mem size (i + 1) (parsed + 1) parser reply

/-- `printf` with `%s` reads up to a zero. -/
def printString (mem : Bytes) (i : ℤ) : Except ReadFault Unit :=
  match Cursor.skip mem (· ≠ 0) (mem.length + 1) i with
  | .error _ => .error .readBuffer
  | .ok _ => .ok ()

def readLoopAt (env : Environment) (mem : Bytes) (len : ℤ) : ℕ → HAMConnection → ℕ →
    Except ReadFault (HAMConnection × ℕ × List Event)
  | 0, _, _ => .error .endless
  | fuel + 1, connection, parsedTotal =>
    if parsedTotal = unsignedLong (len - 1) then .ok (connection, parsedTotal, [])
    else do
      let (parsed, parser, reply) ← parseAt mem (unsignedLong (len - parsedTotal)) parsedTotal 0
        connection.parser connection.reply
      let connection := { connection with parser, reply }
      if parsed = 0 then
        printString mem parsedTotal
        printString mem 0
        let closed := hamConnectionDisconnect connection
        return (closed.1, parsedTotal,
          .signal .disconnected (bytes "Server sent mallformed data") :: closed.2)
      else
        if reply.finished then printString mem 0
        let delivered := handleParsed env connection
        let (connection, parsedTotal, events) ←
          readLoopAt env mem len fuel delivered.1 (unsignedLong (parsedTotal + parsed))
        return (connection, parsedTotal, delivered.2 ++ events)

def hamConnectionReadDataAt (env : Environment) (fuel : ℕ) (buffer : ReadBuffer)
    (connection : HAMConnection) (read : ReadResult) :
    Except ReadFault (HAMConnection × List Event) :=
  if connection.fd = -1 then .ok (connection, [])
  else
    let len : ℤ := match read with
      | none => -1
      | some data => data.1.length
    let received : Bytes := match read with
      | none => []
      | some data => data.1
    if len = 0 then
      let closed := hamConnectionDisconnect connection
      .ok (closed.1, .signal .disconnected (bytes "Server closed the connection") :: closed.2)
    else
      match Cursor.write (received ++ buffer.1.drop received.length) len 0 with
      | .error _ => .error .readBuffer
      | .ok mem => (readLoopAt env mem len fuel connection 0).map fun result => (result.1, result.2.2)

/-- No access leaves the buffer, however many turns the loop makes. -/
def StaysInside (env : Environment) (buffer : ReadBuffer) (connection : HAMConnection)
    (read : ReadResult) : Prop :=
  ∀ fuel, hamConnectionReadDataAt env fuel buffer connection read ≠ .error .readBuffer

/-! ## The places and the bytes -/

def Halt.toFault : Halt → ReadFault
  | .outOfBounds => .parserBuffer
  | .outOfFuel => .endless

section Places
variable {front data rest : Bytes}

theorem parseAt_eq (front : Bytes) (data rest : Bytes) (parsed : ℕ) (p : HAMParser)
    (r : HAMReply) :
    parseAt (front ++ (data ++ rest)) data.length front.length parsed p r =
      match parseFrom parsed p r data with
      | none => .error .parserBuffer
      | some result => .ok result := by
  induction data generalizing front parsed p r with
  | nil => rfl
  | cons c data ih =>
    have hnext (parsed : ℕ) (p : HAMParser) (r : HAMReply) := ih (front ++ [c]) parsed p r
    simp only [List.append_assoc, List.singleton_append] at hnext
    rw [List.length_cons, parseAt, parseFrom, List.cons_append, Cursor.read_length]
    dsimp only
    cases hamParserConsume declared p r c with
    | error stop => cases stop <;> rfl
    | ok next =>
      dsimp only
      split_ifs with hfinished
      · rfl
      · rw [Cursor.cast_length_concat front c, hnext]

theorem printString_eq (front tail rest : Bytes) :
    printString (front ++ (tail ++ 0 :: rest)) front.length = .ok () := by
  have hmem : (0 : Byte) ∈ tail ++ 0 :: rest := List.mem_append_right _ List.mem_cons_self
  obtain ⟨passed, behind, hsplit, hpassed⟩ := List.eq_append_cons_of_mem hmem
  rw [printString, hsplit, Cursor.skip_eq (fun d hd => ?_) (by simp) front behind]
  · simp only [List.length_append]
    omega
  · simpa using fun heq : d = 0 => hpassed (heq ▸ hd)

theorem unsignedLong_natCast {n : ℕ} (h : n < 2 ^ 64) : unsignedLong n = n := by
  rw [unsignedLong]
  omega

/-- With its terminator in the buffer, the loop is that over the bytes. -/
theorem readLoopAt_eq (env : Environment) (hne : data ≠ []) (hlen : data.length < 2 ^ 64)
    (rest : Bytes) (fuel : ℕ) (connection : HAMConnection) {parsedTotal : ℕ}
    (hle : parsedTotal ≤ data.length) :
    readLoopAt env (data ++ 0 :: rest) data.length fuel connection parsedTotal =
      (readLoop env fuel connection data parsedTotal).mapError Halt.toFault := by
  have hpos := List.length_pos_of_ne_nil hne
  have hlast : unsignedLong ((data.length : ℤ) - 1) = data.length - 1 := by
    rw [← unsignedLong_natCast (n := data.length - 1) (by omega)]
    congr 1
    omega
  have hprint (i : ℕ) (hi : i ≤ data.length) : printString (data ++ 0 :: rest) i = .ok () := by
    have hplace := printString_eq (data.take i) (data.drop i) rest
    rwa [← List.append_assoc, List.take_append_drop, List.length_take_of_le hi] at hplace
  induction fuel generalizing connection parsedTotal with
  | zero => rfl
  | succ fuel ih =>
    rw [readLoopAt, readLoop, hlast]
    by_cases hend : parsedTotal = data.length - 1
    · rw [if_pos hend, if_pos hend]
      rfl
    rw [if_neg hend, if_neg hend]
    have hsize : unsignedLong ((data.length : ℤ) - parsedTotal) =
        (data.drop parsedTotal).length := by
      rw [List.length_drop, ← unsignedLong_natCast (n := data.length - parsedTotal) (by omega)]
      congr 1
      omega
    have hparse := parseAt_eq (data.take parsedTotal) (data.drop parsedTotal) (0 :: rest) 0
      connection.parser connection.reply
    rw [← List.append_assoc, List.take_append_drop, List.length_take_of_le hle] at hparse
    rw [hsize, hparse, hamParserParse]
    cases hfrom : parseFrom 0 connection.parser connection.reply (data.drop parsedTotal) with
    | none => rfl
    | some result =>
      obtain ⟨parsed, parser, reply⟩ := result
      have hparsed := parseFrom_le hfrom
      rw [zero_add, List.length_drop] at hparsed
      have hprinted := hprint parsedTotal hle
      have hstart : printString (data ++ 0 :: rest) 0 = .ok () := hprint 0 (Nat.zero_le _)
      simp only [bind, Except.bind]
      by_cases hzero : parsed = 0
      · simp only [if_pos hzero, hprinted, hstart]
        rfl
      · have hnext : unsignedLong (parsedTotal + parsed) = parsedTotal + parsed :=
          unsignedLong_natCast (n := parsedTotal + parsed) (by omega)
        have hloop := ih (handleParsed env { connection with parser, reply }).1
          (show parsedTotal + parsed ≤ data.length by omega)
        simp only [if_neg hzero, hstart, hnext, hloop, ite_self]
        cases readLoop env fuel (handleParsed env { connection with parser, reply }).1 data
          (parsedTotal + parsed) <;> simp [Except.mapError, pure, Except.pure]

end Places

/-! ## One read -/

section Read
variable (env : Environment) (fuel : ℕ) (buffer : ReadBuffer) {connection : HAMConnection}

theorem readDataAt_some (hfd : connection.fd ≠ -1)
    {data : { data : Bytes // data.length ≤ readBufferSize }} (hne : data.1 ≠ [])
    (hlt : data.1.length < readBufferSize) :
    hamConnectionReadDataAt env fuel buffer connection (some data) =
      ((readLoop env fuel connection data.1 0).mapError Halt.toFault).map
        fun result => (result.1, result.2.2) := by
  obtain ⟨data, hle⟩ := data
  obtain ⟨buffer, hbuffer⟩ := buffer
  have hlen : (data.length : ℤ) ≠ 0 := by simpa using hne
  obtain ⟨b, rest, hdrop⟩ : ∃ b rest, buffer.drop data.length = b :: rest :=
    List.exists_cons_of_length_pos (by rw [List.length_drop]; dsimp only at hlt; omega)
  have hsize : data.length < 2 ^ 64 := hlt.trans (by decide)
  simp only [hamConnectionReadDataAt, if_neg hfd, if_neg hlen, hdrop, Cursor.write_length,
    readLoopAt_eq env hne hsize rest fuel connection (Nat.zero_le _)]

/-- With a read that leaves room for the terminator, the accesses are in bounds as far as the parser
keeps to its own buffers, and the outcome is that on the bytes alone. -/
theorem readDataAt_eq {data : { data : Bytes // data.length ≤ readBufferSize }}
    (hlt : data.1.length < readBufferSize) :
    hamConnectionReadDataAt env (data.1.length + 1) buffer connection (some data) =
      (hamConnectionReadData env connection (some data.1)).mapError Halt.toFault := by
  by_cases hfd : connection.fd = -1
  · simp [hamConnectionReadDataAt, hamConnectionReadData, hfd, Except.mapError]
  by_cases hne : data.1 = []
  · simp [hamConnectionReadDataAt, hamConnectionReadData, hfd, hne, Except.mapError]
  rw [readDataAt_some env _ buffer hfd hne hlt, hamConnectionReadData_some hfd hne hlt]
  cases readLoop env (data.1.length + 1) connection data.1 0 <;> rfl

theorem readDataAt_failed (hfd : connection.fd ≠ -1) :
    hamConnectionReadDataAt env fuel buffer connection none = .error .readBuffer := by
  simp [hamConnectionReadDataAt, hfd, Cursor.write]

theorem readDataAt_full (hfd : connection.fd ≠ -1)
    {data : { data : Bytes // data.length ≤ readBufferSize }}
    (hfull : data.1.length = readBufferSize) :
    hamConnectionReadDataAt env fuel buffer connection (some data) = .error .readBuffer := by
  have hdrop : buffer.1.drop data.1.length = [] :=
    List.drop_eq_nil_of_le (by rw [buffer.2, hfull])
  have hlen : (data.1.length : ℤ) ≠ 0 := by
    rw [hfull]
    decide
  simp only [hamConnectionReadDataAt, if_neg hfd, if_neg hlen, hdrop, List.append_nil, Cursor.write,
    le_refl, or_true, if_true]

end Read

/-- The accesses are in bounds if and only if nothing is read, or `read` returns a length from 0 on
that leaves room for the terminator. -/
theorem staysInside_iff (env : Environment) (buffer : ReadBuffer)
    (connection : HAMConnection) (read : ReadResult) :
    StaysInside env buffer connection read ↔
      connection.fd = -1 ∨ ∃ data ∈ read, data.1.length < readBufferSize := by
  by_cases hfd : connection.fd = -1
  · exact iff_of_true (fun fuel => by simp [hamConnectionReadDataAt, hfd]) (.inl hfd)
  rw [or_iff_right hfd]
  cases read with
  | none => exact iff_of_false (fun h => h 0 (readDataAt_failed env 0 buffer hfd)) (by simp)
  | some data =>
    by_cases hlt : data.1.length < readBufferSize
    · refine iff_of_true (fun fuel => ?_) ⟨data, rfl, hlt⟩
      by_cases hne : data.1 = []
      · simp [hamConnectionReadDataAt, hfd, hne]
      · rw [readDataAt_some env fuel buffer hfd hne hlt]
        cases readLoop env fuel connection data.1 0 with
        | error halt => cases halt <;> simp [Except.mapError, Except.map, Halt.toFault]
        | ok result => simp [Except.mapError, Except.map]
    · have hfull : data.1.length = readBufferSize := le_antisymm data.2 (not_lt.mp hlt)
      refine iff_of_false (fun h => h 0 (readDataAt_full env 0 buffer hfd hfull)) ?_
      rintro ⟨other, hother, hroom⟩
      obtain rfl := Option.some.inj hother
      exact hlt hroom

/-- After a failed read the terminator is stored in front of the buffer. -/
theorem not_staysInside_failed :
    ¬ ∀ env buffer connection read, StaysInside env buffer connection read :=
  fun h => h (fun _ _ _ => []) ⟨List.replicate readBufferSize 0, List.length_replicate⟩
    { fd := 4 } none 0 (readDataAt_failed _ 0 _ (by decide))

end Hamlog.Library
