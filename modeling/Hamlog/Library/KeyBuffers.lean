import Hamlog.Foundation.Cursor
import Hamlog.Library.HashTableMap

/-! # Keys in memory

A key is a pointer and a length. The hash is taken up to a zero byte, whatever
the length, and keys are compared by their lengths and bytes. Here the key is the
memory block that it points into, every read of it is checked, and the bytes that
the hash reads are counted.
-/
namespace Hamlog.Library
open Foundation

variable {α : Type}

/-- The length -1 stands for `strlen` of the key. -/
def keyLengthAt (buffer : Bytes) (keyLen : ℤ) : Except WalkFault ℕ :=
  if keyLen = -1 then
    (Cursor.skip buffer (· ≠ 0) (buffer.length + 1) 0).map Int.toNat
  else .ok keyLen.toNat

/-- A turn of the loop of the hash: a zero stops it. -/
def hashStep (hash : UInt64) (c : Byte) : Option UInt64 :=
  if c = 0 then none else some (sdbm hash c)

def bucketOf (hash : UInt64) : Fin hashLen := ⟨hash.toNat % hashLen, Nat.mod_lt _ (by decide)⟩

/-- The bucket of the key, and how many bytes of it are read. -/
def hamHashTableDoHashAt (buffer : Bytes) (keyLen : ℤ) : Except WalkFault (Fin hashLen × ℕ) := do
  let _ ← keyLengthAt buffer keyLen
  let (hash, ptr) ← Cursor.scan buffer hashStep (buffer.length + 1) 0 0
  return (bucketOf hash, (ptr + 1).toNat)

def hamHashTableAddAt (table : HAMHashTable α) (buffer : Bytes) (keyLen : ℤ) (value : α) :
    Except WalkFault (HAMHashTable α) := do
  let keyLen ← keyLengthAt buffer keyLen
  let (hash, _) ← hamHashTableDoHashAt buffer keyLen
  let key ← Cursor.memcpy buffer keyLen 0
  return insertItem table hash ⟨key, value⟩

/-- The loops of `ham_hash_table_lookup`; `memcmp` reads the key where the lengths are equal. -/
def findItemAt (buffer : Bytes) (keyLen : ℕ) :
    List (HAMHashTableItem α) → Except WalkFault (Option (HAMHashTableItem α))
  | [] => .ok none
  | item :: rest =>
    if item.keyLen ≠ keyLen then findItemAt buffer keyLen rest
    else do
      let key ← Cursor.memcpy buffer keyLen 0
      if item.key = key then return some item else findItemAt buffer keyLen rest

def hamHashTableLookupAt (table : HAMHashTable α) (buffer : Bytes) (keyLen : ℤ) :
    Except WalkFault (Option α) := do
  let keyLen ← keyLengthAt buffer keyLen
  let (hash, _) ← hamHashTableDoHashAt buffer keyLen
  let item ← findItemAt buffer keyLen (table.items hash)
  return item.map (·.data)

/-! ## The reads of a key -/

section Reads
variable {buffer : Bytes} {keyLen : ℕ}

theorem keyLengthAt_natCast (buffer : Bytes) (keyLen : ℕ) :
    keyLengthAt buffer keyLen = .ok keyLen := by
  rw [keyLengthAt, if_neg (by omega), Int.toNat_natCast]

theorem foldlM_hashStep {text : Bytes} (h : 0 ∉ text) (hash : UInt64) :
    text.foldlM hashStep hash = some (text.foldl sdbm hash) := by
  induction text generalizing hash with
  | nil => rfl
  | cons c text ih =>
    rw [List.mem_cons, not_or] at h
    rw [List.foldlM_cons, hashStep, if_neg (Ne.symm h.1), Option.bind_eq_bind, Option.bind_some,
      ih h.2, List.foldl_cons]

theorem cstr_stored {text : Bytes} (h : 0 ∉ text) (rest : Bytes) :
    cstr (text ++ 0 :: rest) = text := by
  rw [cstr_append h, cstr, List.takeWhile_cons_of_neg (by simp), List.append_nil]

theorem keyLengthAt_eq (h : 0 ∈ buffer) (keyLen : ℤ) :
    keyLengthAt buffer keyLen = .ok (keyLength buffer keyLen) := by
  rw [keyLengthAt, keyLength]
  split_ifs
  · obtain ⟨text, rest, rfl, htext⟩ := List.eq_append_cons_of_mem h
    have hpassed : ∀ c ∈ text, decide (c ≠ 0) = true := fun c hc => by
      simpa using fun hzero : c = 0 => htext (hzero ▸ hc)
    have hskip := Cursor.skip_eq hpassed (c := 0) (by simp) [] rest
      (show text.length < (text ++ 0 :: rest).length + 1 by simp)
    rw [List.nil_append, List.nil_append, List.length_nil, Nat.cast_zero] at hskip
    rw [hskip, cstr_stored htext]
    rfl
  · rfl

/-- The hash reads the key up to its zero. -/
theorem doHashAt_eq (h : 0 ∈ buffer) (keyLen : ℤ) : hamHashTableDoHashAt buffer keyLen =
    .ok (hamHashTableDoHash buffer keyLen, (cstr buffer).length + 1) := by
  obtain ⟨text, rest, rfl, htext⟩ := List.eq_append_cons_of_mem h
  have hscan := Cursor.scan_eq (foldlM_hashStep htext 0) (c := 0) (if_pos rfl) [] rest
    (show text.length < (text ++ 0 :: rest).length + 1 by simp)
  rw [List.nil_append, List.nil_append, List.length_nil, Nat.cast_zero] at hscan
  change _ = Except.ok (bucketOf ((cstr (text ++ 0 :: rest)).foldl sdbm 0), _)
  rw [hamHashTableDoHashAt, keyLengthAt_eq h, hscan, cstr_stored htext]
  rfl

/-- A block without a zero is read to its end and beyond. -/
theorem doHashAt_endless (h : 0 ∉ buffer) (keyLen : ℕ) :
    hamHashTableDoHashAt buffer keyLen = .error .outside := by
  have hscan := Cursor.scan_outside (foldlM_hashStep h 0) [] (Nat.lt_succ_self buffer.length)
  rw [List.nil_append, List.length_nil, Nat.cast_zero] at hscan
  rw [hamHashTableDoHashAt, keyLengthAt_natCast, hscan]
  rfl

theorem cstr_take (h : 0 ∈ buffer.take keyLen) : cstr (buffer.take keyLen) = cstr buffer := by
  obtain ⟨text, rest, htake, htext⟩ := List.eq_append_cons_of_mem h
  have hbuffer : buffer = text ++ 0 :: (rest ++ buffer.drop keyLen) := by
    conv_lhs => rw [← List.take_append_drop keyLen buffer, htake]
    rw [List.append_assoc, List.cons_append]
  rw [htake, cstr_stored htext, hbuffer, cstr_stored htext]

theorem cstr_length_lt_iff (h : 0 ∈ buffer) :
    (cstr buffer).length < keyLen ↔ 0 ∈ buffer.take keyLen := by
  constructor
  · intro hlen
    obtain ⟨text, rest, rfl, htext⟩ := List.eq_append_cons_of_mem h
    rw [cstr_stored htext] at hlen
    obtain ⟨k, rfl⟩ := Nat.exists_eq_add_of_lt hlen
    rw [add_assoc, List.take_length_add_append, List.take_succ_cons]
    exact List.mem_append_right _ List.mem_cons_self
  · intro hzero
    have hprefix : (cstr (buffer.take keyLen)).length < (buffer.take keyLen).length := by
      obtain ⟨text, rest, htake, htext⟩ := List.eq_append_cons_of_mem hzero
      rw [htake, cstr_stored htext]
      simp
    rw [cstr_take hzero] at hprefix
    exact hprefix.trans_le (List.length_take_le _ _)

/-- The hash keeps to the first bytes of the key if and only if there is a zero among them. -/
theorem doHashAt_within : (∃ hash n, hamHashTableDoHashAt buffer keyLen = .ok (hash, n) ∧
    n ≤ keyLen) ↔ 0 ∈ buffer.take keyLen := by
  by_cases hzero : 0 ∈ buffer
  · rw [doHashAt_eq hzero, ← cstr_length_lt_iff hzero]
    simp
  · refine iff_of_false ?_ fun h => hzero (List.mem_of_mem_take h)
    simp [doHashAt_endless hzero]

theorem memcpy_take (h : keyLen ≤ buffer.length) :
    Cursor.memcpy buffer keyLen 0 = .ok (buffer.take keyLen) := by
  have hcopy := Cursor.memcpy_eq [] (buffer.take keyLen) (buffer.drop keyLen)
  rwa [List.nil_append, List.take_append_drop, List.length_take_of_le h, List.length_nil,
    Nat.cast_zero] at hcopy

theorem findItemAt_eq (h : keyLen ≤ buffer.length) (items : List (HAMHashTableItem α)) :
    findItemAt buffer keyLen items = .ok (findItem (buffer.take keyLen) items) := by
  induction items with
  | nil => rfl
  | cons item rest ih =>
    rw [findItemAt, findItem, ih, memcpy_take h, List.length_take_of_le h]
    simp only [bind, Except.bind, pure, Except.pure]
    split_ifs <;> rfl

end Reads

/-! ## One key in two buffers -/

section Calls
variable (table : HAMHashTable α) {buffer : Bytes} {keyLen : ℤ}

theorem keyLength_natCast (buffer : Bytes) (keyLen : ℕ) : keyLength buffer keyLen = keyLen := by
  rw [keyLength, if_neg (by omega), Int.toNat_natCast]

theorem hamHashTableAdd_eq (key : Bytes) (keyLen : ℤ) (value : α) :
    hamHashTableAdd table key keyLen value =
      insertItem table (hamHashTableDoHash key keyLen) ⟨key.take (keyLength key keyLen), value⟩ :=
  rfl

/-- With a zero in the block, the functions are those on byte strings. -/
theorem addAt_eq (hzero : 0 ∈ buffer) (hlen : keyLength buffer keyLen ≤ buffer.length)
    (value : α) : hamHashTableAddAt table buffer keyLen value =
      .ok (hamHashTableAdd table buffer keyLen value) := by
  simp only [hamHashTableAddAt, keyLengthAt_eq hzero, doHashAt_eq hzero, memcpy_take hlen, bind,
    Except.bind, pure, Except.pure]
  rfl

theorem lookupAt_eq (hzero : 0 ∈ buffer) (hlen : keyLength buffer keyLen ≤ buffer.length) :
    hamHashTableLookupAt table buffer keyLen = .ok (hamHashTableLookup table buffer keyLen) := by
  simp only [hamHashTableLookupAt, keyLengthAt_eq hzero, doHashAt_eq hzero, findItemAt_eq hlen,
    bind, Except.bind, pure, Except.pure]
  rfl

theorem insertItem_items (hash : Fin hashLen) (item : HAMHashTableItem α) :
    (insertItem table hash item).items hash = putBehindFirst item (table.items hash) := by
  rw [insertItem]
  cases table.items hash with
  | nil => simp [putBehindFirst]
  | cons first rest => simp [putBehindFirst, replaceOrAppend_eq]

end Calls

/-- An item put in behind the first one is found, unless the first one has its key and another
value. -/
theorem findItem_putBehindFirst (item : HAMHashTableItem α) (items : List (HAMHashTableItem α)) :
    (findItem item.key (putBehindFirst item items)).map (·.data) = some item.data ↔
      ∀ first ∈ items.head?, first.key = item.key → first.data = item.data := by
  rw [findItem_eq]
  by_cases hfirst : items.head?.map (·.key) = some item.key
  · obtain ⟨first, hhead, hkey⟩ := Option.map_eq_some_iff.mp hfirst
    obtain ⟨rest, rfl⟩ := List.head?_eq_some_iff.mp hhead
    rw [putBehindFirst, KeyedList.find_cons, if_pos hkey]
    simp [hkey]
  · rw [find_putBehindFirst item items hfirst]
    refine iff_of_true rfl fun first hhead hkey => absurd ?_ hfirst
    rw [Option.mem_def.mp hhead, Option.map_some, hkey]

/-- The bytes of a key in two buffers are one key: their bucket is the same, no more than they are
read for it, and what is added under the first buffer is found under the second. -/
structure OneKey (table : HAMHashTable α) (first second : Bytes) (keyLen : ℕ) (value : α) :
    Prop where
  bucket : ∃ hash n m, hamHashTableDoHashAt first keyLen = .ok (hash, n) ∧ n ≤ keyLen ∧
    hamHashTableDoHashAt second keyLen = .ok (hash, m) ∧ m ≤ keyLen
  found : ∃ after, hamHashTableAddAt table first keyLen value = .ok after ∧
    hamHashTableLookupAt after second keyLen = .ok (some value)

/-- Two buffers that begin with the same bytes hold one key if and only if a zero is among these
bytes and the first item of their bucket is not stored under them with another value. -/
theorem oneKey_iff (table : HAMHashTable α) {first second : Bytes} {keyLen : ℕ} (value : α)
    (hfirst : keyLen ≤ first.length) (hsecond : keyLen ≤ second.length)
    (hsame : first.take keyLen = second.take keyLen) :
    OneKey table first second keyLen value ↔ 0 ∈ first.take keyLen ∧
      ∀ item ∈ (table.items (hamHashTableDoHash first keyLen)).head?,
        item.key = first.take keyLen → item.data = value := by
  by_cases hzero : 0 ∈ first.take keyLen
  · have hzero' : 0 ∈ second.take keyLen := hsame ▸ hzero
    have htext : cstr first = cstr second := by
      rw [← cstr_take hzero, hsame, cstr_take hzero']
    have hhash : hamHashTableDoHash second keyLen = hamHashTableDoHash first keyLen := by
      simp only [hamHashTableDoHash, htext]
    obtain ⟨hash, n, hread, hn⟩ := doHashAt_within.mpr hzero
    obtain ⟨hash', m, hread', hm⟩ := doHashAt_within.mpr hzero'
    have hmem := List.mem_of_mem_take hzero
    have hmem' := List.mem_of_mem_take hzero'
    obtain rfl : hash = hash' := by
      rw [doHashAt_eq hmem, Except.ok.injEq, Prod.mk.injEq] at hread
      rw [doHashAt_eq hmem', Except.ok.injEq, Prod.mk.injEq] at hread'
      rw [← hread.1, ← hread'.1, hhash]
    have hadd := addAt_eq table hmem ((keyLength_natCast first keyLen).trans_le hfirst) value
    have hlookup := lookupAt_eq (hamHashTableAdd table first keyLen value) hmem'
      ((keyLength_natCast second keyLen).trans_le hsecond)
    rw [hamHashTableLookup, keyLength_natCast, ← hsame, hhash, hamHashTableAdd_eq,
      keyLength_natCast, insertItem_items] at hlookup
    rw [and_iff_right hzero, ← findItem_putBehindFirst ⟨first.take keyLen, value⟩]
    constructor
    · rintro ⟨-, after, hafter, hvalue⟩
      rw [hadd, hamHashTableAdd_eq, keyLength_natCast, Except.ok.injEq] at hafter
      subst hafter
      exact Except.ok.inj (hlookup.symm.trans hvalue)
    · intro hvalue
      refine ⟨⟨hash, n, m, hread, hn, hread', hm⟩, _, hadd, ?_⟩
      rw [hamHashTableAdd_eq, keyLength_natCast, hlookup, hvalue]
  · refine iff_of_false ?_ fun h => hzero h.1
    rintro ⟨⟨hash, n, -, hread, hn, -⟩, -⟩
    exact hzero (doHashAt_within.mp ⟨hash, n, hread, hn⟩)

/-- A key with its terminator, and zeros behind it. -/
theorem oneKey_sample : OneKey ({} : HAMHashTable ℕ) (bytes "ok" ++ [0, 0]) (bytes "ok" ++ [0, 7]) 3
    5 :=
  (oneKey_iff {} 5 (by decide) (by decide) (by decide)).mpr ⟨by decide, by simp⟩

/-- The bytes behind the key tell the buckets apart. -/
theorem not_oneKey_continued :
    ¬ ∀ (table : HAMHashTable ℕ) (first second : Bytes) (keyLen value : ℕ),
      keyLen ≤ first.length → keyLen ≤ second.length → first.take keyLen = second.take keyLen →
        OneKey table first second keyLen value := by
  intro h
  have hkey := h {} (bytes "ok" ++ [0]) (bytes "ok1" ++ [0]) 2 5 (by decide) (by decide) (by decide)
  obtain ⟨⟨hash, n, m, hfirst, -, hsecond, -⟩, -⟩ := hkey
  have hbuckets : (hamHashTableDoHashAt (bytes "ok" ++ [0]) 2).map (·.1) ≠
      (hamHashTableDoHashAt (bytes "ok1" ++ [0]) 2).map (·.1) := by
    decide
  have hcast : ((2 : ℕ) : ℤ) = 2 := rfl
  rw [hcast] at hfirst hsecond
  rw [hfirst, hsecond] at hbuckets
  exact hbuckets rfl

end Hamlog.Library
