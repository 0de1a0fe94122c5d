import Hamlog.Foundation.BlockStream
import Hamlog.Foundation.Bytes
import Hamlog.Library.Request

/-! # MD5

`md5.cpp` of the server and `md5.c` of the library, which are one text. Words
are unsigned and of 32 bits, and an `int` sum that overflows is `none`. What the
block buffer holds before the first bytes come in is not initialised, so every
function takes a buffer of any content. The hash that the two programs print is
compared with the message digest as it is specified: the padded message, cut
into blocks, each run through sixty-four steps that rotate the four words.
-/
namespace Hamlog.Wire.Md5
open Foundation BlockStream

/-! ## The blocks -/

/-- `md5_byte_t buf[64]`. -/
abbrev Block := { buf : Bytes // buf.length = 64 }

/-- `memcpy(buf + offset, p, n)`; nothing is written behind the buffer. -/
def Block.copy (buf : Block) (offset : ℕ) (p : Bytes) (h : offset + p.length ≤ 64) : Block :=
  ⟨buf.1.take offset ++ p ++ buf.1.drop (offset + p.length), by
    have hsize := buf.2
    simp only [List.length_append, List.length_take, List.length_drop]
    omega⟩

/-- `abcd[4]`. -/
structure Words where
  a : UInt32
  b : UInt32
  c : UInt32
  d : UInt32
  deriving DecidableEq

def TMask : UInt32 := 0xffffffff

/-- `T1` to `T64`. -/
def T (i : ℕ) : UInt32 := (
  [TMask ^^^ 0x28955b87, TMask ^^^ 0x173848a9, 0x242070db, TMask ^^^ 0x3e423111,
   TMask ^^^ 0x0a83f050, 0x4787c62a, TMask ^^^ 0x57cfb9ec, TMask ^^^ 0x02b96afe, 0x698098d8,
   TMask ^^^ 0x74bb0850, TMask ^^^ 0x0000a44e, TMask ^^^ 0x76a32841, 0x6b901122,
   TMask ^^^ 0x02678e6c, TMask ^^^ 0x5986bc71, 0x49b40821, TMask ^^^ 0x09e1da9d,
   TMask ^^^ 0x3fbf4cbf, 0x265e5a51, TMask ^^^ 0x16493855, TMask ^^^ 0x29d0efa2, 0x02441453,
   TMask ^^^ 0x275e197e, TMask ^^^ 0x182c0437, 0x21e1cde6, TMask ^^^ 0x3cc8f829,
   TMask ^^^ 0x0b2af278, 0x455a14ed, TMask ^^^ 0x561c16fa, TMask ^^^ 0x03105c07, 0x676f02d9,
   TMask ^^^ 0x72d5b375, TMask ^^^ 0x0005c6bd, TMask ^^^ 0x788e097e, 0x6d9d6122,
   TMask ^^^ 0x021ac7f3, TMask ^^^ 0x5b4115bb, 0x4bdecfa9, TMask ^^^ 0x0944b49f,
   TMask ^^^ 0x4140438f, 0x289b7ec6, TMask ^^^ 0x155ed805, TMask ^^^ 0x2b10cf7a, 0x04881d05,
   TMask ^^^ 0x262b2fc6, TMask ^^^ 0x1924661a, 0x1fa27cf8, TMask ^^^ 0x3b53a99a,
   TMask ^^^ 0x0bd6ddbb, 0x432aff97, TMask ^^^ 0x546bdc58, TMask ^^^ 0x036c5fc6, 0x655b59c3,
   TMask ^^^ 0x70f3336d, TMask ^^^ 0x00100b82, TMask ^^^ 0x7a7ba22e, 0x6fa87e4f,
   TMask ^^^ 0x01d3191f, TMask ^^^ 0x5cfebceb, 0x4e0811a1, TMask ^^^ 0x08ac817d,
   TMask ^^^ 0x42c50dca, 0x2ad7d2bb, TMask ^^^ 0x14792c6e] : List UInt32).getD (i - 1) 0

inductive Register where
  | a | b | c | d
  deriving DecidableEq

def Words.get (w : Words) : Register → UInt32
  | .a => w.a
  | .b => w.b
  | .c => w.c
  | .d => w.d

def Words.set (w : Words) (value : UInt32) : Register → Words
  | .a => { w with a := value }
  | .b => { w with b := value }
  | .c => { w with c := value }
  | .d => { w with d := value }

/-- The functions of the four rounds. -/
inductive Mix where
  | F | G | H | I
  deriving DecidableEq

def Mix.apply : Mix → UInt32 → UInt32 → UInt32 → UInt32
  | .F, x, y, z => (x &&& y) ||| (~~~x &&& z)
  | .G, x, y, z => (x &&& z) ||| (y &&& ~~~z)
  | .H, x, y, z => x ^^^ y ^^^ z
  | .I, x, y, z => y ^^^ (x ||| ~~~z)

/-- The arguments of `SET(a, b, c, d, k, s, Ti)`. -/
structure SetOp where
  a : Register
  b : Register
  c : Register
  d : Register
  k : ℕ
  s : ℕ
  i : ℕ
  deriving DecidableEq

def rotateLeft (x : UInt32) (n : ℕ) : UInt32 :=
  (x <<< UInt32.ofNat n) ||| (x >>> UInt32.ofNat (32 - n))

/-- `SET`, with the words `X` of the block. -/
def SetOp.run (X : ℕ → UInt32) (w : Words) (op : Mix × SetOp) : Words :=
  let t := w.get op.2.a + op.1.apply (w.get op.2.b) (w.get op.2.c) (w.get op.2.d) + X op.2.k +
    T op.2.i
  w.set (rotateLeft t op.2.s + w.get op.2.b) op.2.a

/-- Round 1. -/
def round1 : List SetOp :=
  [⟨.a, .b, .c, .d, 0, 7, 1⟩, ⟨.d, .a, .b, .c, 1, 12, 2⟩,
   ⟨.c, .d, .a, .b, 2, 17, 3⟩, ⟨.b, .c, .d, .a, 3, 22, 4⟩,
   ⟨.a, .b, .c, .d, 4, 7, 5⟩, ⟨.d, .a, .b, .c, 5, 12, 6⟩,
   ⟨.c, .d, .a, .b, 6, 17, 7⟩, ⟨.b, .c, .d, .a, 7, 22, 8⟩,
   ⟨.a, .b, .c, .d, 8, 7, 9⟩, ⟨.d, .a, .b, .c, 9, 12, 10⟩,
   ⟨.c, .d, .a, .b, 10, 17, 11⟩, ⟨.b, .c, .d, .a, 11, 22, 12⟩,
   ⟨.a, .b, .c, .d, 12, 7, 13⟩, ⟨.d, .a, .b, .c, 13, 12, 14⟩,
   ⟨.c, .d, .a, .b, 14, 17, 15⟩, ⟨.b, .c, .d, .a, 15, 22, 16⟩]

/-- Round 2. -/
def round2 : List SetOp :=
  [⟨.a, .b, .c, .d, 1, 5, 17⟩, ⟨.d, .a, .b, .c, 6, 9, 18⟩,
   ⟨.c, .d, .a, .b, 11, 14, 19⟩, ⟨.b, .c, .d, .a, 0, 20, 20⟩,
   ⟨.a, .b, .c, .d, 5, 5, 21⟩, ⟨.d, .a, .b, .c, 10, 9, 22⟩,
   ⟨.c, .d, .a, .b, 15, 14, 23⟩, ⟨.b, .c, .d, .a, 4, 20, 24⟩,
   ⟨.a, .b, .c, .d, 9, 5, 25⟩, ⟨.d, .a, .b, .c, 14, 9, 26⟩,
   ⟨.c, .d, .a, .b, 3, 14, 27⟩, ⟨.b, .c, .d, .a, 8, 20, 28⟩,
   ⟨.a, .b, .c, .d, 13, 5, 29⟩, ⟨.d, .a, .b, .c, 2, 9, 30⟩,
   ⟨.c, .d, .a, .b, 7, 14, 31⟩, ⟨.b, .c, .d, .a, 12, 20, 32⟩]

/-- Round 3. -/
def round3 : List SetOp :=
  [⟨.a, .b, .c, .d, 5, 4, 33⟩, ⟨.d, .a, .b, .c, 8, 11, 34⟩,
   ⟨.c, .d, .a, .b, 11, 16, 35⟩, ⟨.b, .c, .d, .a, 14, 23, 36⟩,
   ⟨.a, .b, .c, .d, 1, 4, 37⟩, ⟨.d, .a, .b, .c, 4, 11, 38⟩,
   ⟨.c, .d, .a, .b, 7, 16, 39⟩, ⟨.b, .c, .d, .a, 10, 23, 40⟩,
   ⟨.a, .b, .c, .d, 13, 4, 41⟩, ⟨.d, .a, .b, .c, 0, 11, 42⟩,
   ⟨.c, .d, .a, .b, 3, 16, 43⟩, ⟨.b, .c, .d, .a, 6, 23, 44⟩,
   ⟨.a, .b, .c, .d, 9, 4, 45⟩, ⟨.d, .a, .b, .c, 12, 11, 46⟩,
   ⟨.c, .d, .a, .b, 15, 16, 47⟩, ⟨.b, .c, .d, .a, 2, 23, 48⟩]

/-- Round 4. -/
def round4 : List SetOp :=
  [⟨.a, .b, .c, .d, 0, 6, 49⟩, ⟨.d, .a, .b, .c, 7, 10, 50⟩,
   ⟨.c, .d, .a, .b, 14, 15, 51⟩, ⟨.b, .c, .d, .a, 5, 21, 52⟩,
   ⟨.a, .b, .c, .d, 12, 6, 53⟩, ⟨.d, .a, .b, .c, 3, 10, 54⟩,
   ⟨.c, .d, .a, .b, 10, 15, 55⟩, ⟨.b, .c, .d, .a, 1, 21, 56⟩,
   ⟨.a, .b, .c, .d, 8, 6, 57⟩, ⟨.d, .a, .b, .c, 15, 10, 58⟩,
   ⟨.c, .d, .a, .b, 6, 15, 59⟩, ⟨.b, .c, .d, .a, 13, 21, 60⟩,
   ⟨.a, .b, .c, .d, 4, 6, 61⟩, ⟨.d, .a, .b, .c, 11, 10, 62⟩,
   ⟨.c, .d, .a, .b, 2, 15, 63⟩, ⟨.b, .c, .d, .a, 9, 21, 64⟩]

def operations : List (Mix × SetOp) :=
  round1.map (.F, ·) ++ round2.map (.G, ·) ++ round3.map (.H, ·) ++ round4.map (.I, ·)

/-- `X[k]`. -/
def word (data : Bytes) (k : ℕ) : UInt32 :=
  let xp (j : ℕ) : UInt32 := (data.getD (4 * k + j) 0).toUInt32
  xp 0 + (xp 1 <<< 8) + (xp 2 <<< 16) + (xp 3 <<< 24)

/-- The registers are incremented by the values that they had before the block. -/
def Words.add (w v : Words) : Words := ⟨w.a + v.a, w.b + v.b, w.c + v.c, w.d + v.d⟩

/-- `md5_process`. -/
def md5Process (abcd : Words) (data : Bytes) : Words :=
  abcd.add (operations.foldl (SetOp.run (word data)) abcd)

/-! ## The functions of the programs -/

structure Md5State where
  count0 : UInt32
  count1 : UInt32
  abcd : Words
  buf : Block

def initialWords : Words :=
  ⟨0x67452301, TMask ^^^ 0x10325476, TMask ^^^ 0x67452301, 0x10325476⟩

/-- `md5_init`, which leaves the buffer as it is. -/
def md5Init (buf : Block) : Md5State := ⟨0, 0, initialWords, buf⟩

/-- The place in the buffer where the next byte goes. -/
def Md5State.offset (pms : Md5State) : ℕ := ((pms.count0 >>> 3) &&& 63).toNat

/-- The update of the message length; `nbytes << 3` keeps its lowest 32 bits. -/
def Md5State.addLength (pms : Md5State) (nbytes : ℕ) : Md5State :=
  let nbits := UInt32.ofNat (nbytes * 8)
  let count1 := pms.count1 + UInt32.ofNat (nbytes / 2 ^ 29)
  let count0 := pms.count0 + nbits
  { pms with count0, count1 := if count0 < nbits then count1 + 1 else count1 }

/-- The loop over the full blocks, with a bound on its turns, and what it leaves. -/
def fullBlocks (abcd : Words) : ℕ → Bytes → Words × Bytes
  | 0, p => (abcd, p)
  | n + 1, p =>
    if 64 ≤ p.length then fullBlocks (md5Process abcd (p.take 64)) n (p.drop 64) else (abcd, p)

theorem fullBlocks_spec (abcd : Words) (n : ℕ) (p : Bytes) (h : p.length ≤ n) :
    (fullBlocks abcd n p).2.length < 64 ∧
      fullBlocks abcd n p = absorb 64 md5Process (abcd, []) p := by
  induction n generalizing abcd p with
  | zero =>
    obtain rfl : p = [] := List.eq_nil_of_length_eq_zero (by omega)
    exact ⟨by simp [fullBlocks], rfl⟩
  | succ n ih =>
    rw [fullBlocks]
    split_ifs with hfull
    · have hdrop : (p.drop 64).length ≤ n := by rw [List.length_drop]; omega
      rw [absorb_block (by norm_num) hfull]
      exact ih _ _ hdrop
    · rw [absorb_short (by simpa using hfull), List.nil_append]
      exact ⟨by simpa using hfull, rfl⟩

/-- The part of `md5_append` behind the initial partial block. -/
def Md5State.appendBlocks (pms : Md5State) (p : Bytes) : Md5State :=
  let done := fullBlocks pms.abcd p.length p
  { pms with
    abcd := done.1
    buf := if done.2 = [] then pms.buf
      else pms.buf.copy 0 done.2 (by
        rw [Nat.zero_add]
        exact (fullBlocks_spec pms.abcd p.length p le_rfl).1.le) }

theorem Md5State.offset_lt (pms : Md5State) : pms.offset < 64 := by
  rw [Md5State.offset, UInt32.toNat_and]
  exact Nat.lt_of_le_of_lt Nat.and_le_right (by decide)

/-- `int copy`. -/
def Md5State.copyLength (pms : Md5State) (nbytes : ℕ) : ℕ :=
  if pms.offset + nbytes > 64 then 64 - pms.offset else nbytes

/-- The initial partial block is copied inside the buffer. -/
theorem Md5State.copyLength_fits (pms : Md5State) (nbytes : ℕ) (p : Bytes) :
    pms.offset + (p.take (pms.copyLength nbytes)).length ≤ 64 := by
  have hlt := pms.offset_lt
  have hle : (p.take (pms.copyLength nbytes)).length ≤ pms.copyLength nbytes :=
    List.length_take_le _ _
  rw [Md5State.copyLength] at hle ⊢
  split_ifs at hle ⊢ <;> omega

/-- `md5_append`. The offset and the length are added as `int`s. -/
def md5Append (pms : Md5State) (data : Bytes) (nbytes : ℤ) : Option Md5State :=
  if nbytes ≤ 0 then some pms
  else
    let n := nbytes.toNat
    let p := data.take n
    let added := pms.addLength n
    if pms.offset = 0 then some (added.appendBlocks p)
    else if 2 ^ 31 ≤ pms.offset + n then none
    else
      let copy := pms.copyLength n
      let buf := pms.buf.copy pms.offset (p.take copy) (pms.copyLength_fits n p)
      if pms.offset + copy < 64 then some { added with buf }
      else some ({ added with abcd := md5Process pms.abcd buf.1, buf }.appendBlocks (p.drop copy))

/-- Byte `i` of words that are stored one after the other. -/
def byteOf (words : List UInt32) (i : ℕ) : Byte :=
  (words.getD (i >>> 2) 0 >>> UInt32.ofNat ((i &&& 3) <<< 3)).toUInt8

def pad : Bytes := 0x80 :: List.replicate 63 0

/-- Up to 56 bytes past a block. -/
def Md5State.padLength (pms : Md5State) : ℕ :=
  ((((55 : UInt32) - (pms.count0 >>> 3)) &&& 63) + 1).toNat

/-- `md5_finish`. -/
def md5Finish (pms : Md5State) : Option Bytes := do
  let data := (List.range 8).map (byteOf [pms.count0, pms.count1])
  let padded ← md5Append pms pad pms.padLength
  let done ← md5Append padded data 8
  some ((List.range 16).map (byteOf [done.abcd.a, done.abcd.b, done.abcd.c, done.abcd.d]))

def hexDigit (n : ℕ) : Byte := (bytes "0123456789abcdef").getD n 0

/-- `sprintf("%02x")` of every byte. -/
def hexText (digest : Bytes) : Bytes :=
  digest.flatMap fun b => [hexDigit (b.toNat / 16), hexDigit (b.toNat % 16)]

/-- `MD5::getHashHEX`. -/
def getHashHEX (buf : Block) (str : Bytes) : Option Bytes := do
  let state ← md5Append (md5Init buf) str (Library.intOfLength str.length)
  (md5Finish state).map hexText

/-- `md5_get_hash_hex`, which is given a C string. -/
def md5GetHashHex (buf : Block) (str : Bytes) : Option Bytes := do
  let state ← md5Append (md5Init buf) (cstr str) (Library.intOfLength (cstr str).length)
  (md5Finish state).map hexText

end Hamlog.Wire.Md5
