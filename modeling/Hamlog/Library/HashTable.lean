import Hamlog.Foundation.Bytes
import Hamlog.Foundation.KeyedList
import Mathlib.Data.Finset.Card
import Mathlib.Data.List.FinRange

/-! # The hash table of the client library

A bucket is a chain of items. `ham_hash_table_add` looks for a key behind the
first item of its chain only, so a key that was the first of its bucket is
stored a second time when it is added again.
-/
namespace Hamlog.Library
open Foundation

def hashLen : ℕ := 256

/-- One turn of the sdbm algorithm on an `unsigned long`; `c` is a signed `char`. -/
def sdbm (hash : UInt64) (c : Byte) : UInt64 :=
  c.toInt8.toInt64.toUInt64 + (hash <<< 6) + (hash <<< 16) - hash

/-- The loop reads up to the terminating zero, whatever the length. -/
def hamHashTableDoHash (key : Bytes) (_keyLen : ℤ) : Fin hashLen :=
  ⟨((cstr key).foldl sdbm 0).toNat % hashLen, Nat.mod_lt _ (by decide)⟩

/-- An item holds a copy of `key_len` bytes of its key. -/
structure HAMHashTableItem (α : Type*) where
  key : Bytes
  data : α

def HAMHashTableItem.keyLen {α : Type*} (item : HAMHashTableItem α) : ℕ := item.key.length

structure HAMHashTable (α : Type*) where
  items : Fin hashLen → List (HAMHashTableItem α) := fun _ => []
  count : ℕ := 0

variable {α : Type*}

/-- The length -1 stands for the length of a string. -/
def keyLength (key : Bytes) (keyLen : ℤ) : ℕ :=
  if keyLen = -1 then (cstr key).length else keyLen.toNat

/-- The loops of `ham_hash_table_add` over the items behind `tmp`: the new chain behind it, and
whether the item was added at its end. -/
def replaceOrAppend (item : HAMHashTableItem α) :
    List (HAMHashTableItem α) → List (HAMHashTableItem α) × Bool
  | [] => ([item], true)
  | next :: rest =>
    let further := replaceOrAppend item rest
    if next.keyLen ≠ item.keyLen then (next :: further.1, further.2)
    else if next.key = item.key then (item :: rest, false)
    else (next :: further.1, further.2)

/-- What `ham_hash_table_add` does with an item of the bucket `hash`. -/
def insertItem (table : HAMHashTable α) (hash : Fin hashLen) (item : HAMHashTableItem α) :
    HAMHashTable α :=
  match table.items hash with
  | [] =>
    { items := Function.update table.items hash [item], count := table.count + 1 }
  | first :: rest =>
    let added := replaceOrAppend item rest
    { items := Function.update table.items hash (first :: added.1),
      count := if added.2 then table.count + 1 else table.count }

def hamHashTableAdd (table : HAMHashTable α) (key : Bytes) (keyLen : ℤ) (value : α) :
    HAMHashTable α :=
  insertItem table (hamHashTableDoHash key keyLen) ⟨key.take (keyLength key keyLen), value⟩

/-- The loops of `ham_hash_table_lookup` over a chain. -/
def findItem (key : Bytes) : List (HAMHashTableItem α) → Option (HAMHashTableItem α)
  | [] => none
  | item :: rest =>
    if item.keyLen ≠ key.length then findItem key rest
    else if item.key = key then some item
    else findItem key rest

def hamHashTableLookup (table : HAMHashTable α) (key : Bytes) (keyLen : ℤ) : Option α :=
  (findItem (key.take (keyLength key keyLen))
    (table.items (hamHashTableDoHash key keyLen))).map (·.data)

def hamHashTableGetSize (table : HAMHashTable α) : ℕ := table.count

def hamHashTableToList (table : HAMHashTable α) : List α :=
  (List.finRange hashLen).flatMap fun i => (table.items i).map (·.data)

/-! ## Chains as keyed lists -/

theorem replaceOrAppend_eq (item : HAMHashTableItem α) (items : List (HAMHashTableItem α)) :
    replaceOrAppend item items = (KeyedList.put (·.key) item items,
      decide (item.key ∉ items.map (·.key))) := by
  induction items with
  | nil => rfl
  | cons next rest ih =>
    rw [replaceOrAppend, ih, KeyedList.put]
    by_cases hkey : next.key = item.key
    · simp [HAMHashTableItem.keyLen, hkey]
    · have hne : item.key ≠ next.key := Ne.symm hkey
      simp [hkey, hne]

theorem findItem_eq (key : Bytes) (items : List (HAMHashTableItem α)) :
    findItem key items = KeyedList.find (·.key) key items := by
  induction items with
  | nil => rfl
  | cons item rest ih =>
    rw [findItem, ih, KeyedList.find_cons]
    by_cases hkey : item.key = key
    · simp [HAMHashTableItem.keyLen, hkey]
    · simp [hkey]

theorem take_keyLength (key : Bytes) : key.take (keyLength key (-1)) = cstr key := by
  rw [keyLength, if_pos rfl]
  exact (List.prefix_iff_eq_take.mp (List.takeWhile_prefix _)).symm

theorem mem_hamHashTableToList (table : HAMHashTable α) (data : α) :
    data ∈ hamHashTableToList table ↔ ∃ hash, ∃ item ∈ table.items hash, item.data = data := by
  simp [hamHashTableToList, List.mem_flatMap, List.mem_map]

/-- An add brings in no value but its own. -/
theorem mem_hamHashTableAdd {table : HAMHashTable α} {key : Bytes} {keyLen : ℤ}
    {value data : α} (h : data ∈ hamHashTableToList (hamHashTableAdd table key keyLen value)) :
    data = value ∨ data ∈ hamHashTableToList table := by
  rw [mem_hamHashTableToList] at h ⊢
  obtain ⟨hash, item, hitem, rfl⟩ := h
  have hother (items : List (HAMHashTableItem α)) (hbucket : item ∈
      Function.update table.items (hamHashTableDoHash key keyLen) items hash)
      (hitems : item ∈ items → item.data = value ∨
        item ∈ table.items (hamHashTableDoHash key keyLen)) :
      item.data = value ∨ ∃ hash, ∃ other ∈ table.items hash, other.data = item.data := by
    rw [Function.update_apply] at hbucket
    split_ifs at hbucket
    · exact (hitems hbucket).imp_right fun hold => ⟨_, item, hold, rfl⟩
    · exact Or.inr ⟨hash, item, hbucket, rfl⟩
  simp only [hamHashTableAdd, insertItem] at hitem
  cases hbucket : table.items (hamHashTableDoHash key keyLen) with
  | nil =>
    simp only [hbucket] at hitem
    refine hother _ hitem fun hnew => Or.inl ?_
    rw [List.mem_singleton.mp hnew]
  | cons first rest =>
    simp only [hbucket] at hitem
    refine hother _ hitem fun hnew => ?_
    rw [hbucket]
    rcases List.mem_cons.mp hnew with rfl | hnew
    · exact Or.inr List.mem_cons_self
    · rw [replaceOrAppend_eq] at hnew
      rcases KeyedList.mem_put _ hnew with rfl | hold
      · exact Or.inl rfl
      · exact Or.inr (List.mem_cons_of_mem _ hold)

end Hamlog.Library
