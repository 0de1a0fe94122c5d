import Hamlog.Library.HashTableRemove
import Hamlog.Library.LinkedList

/-! # Enumerating the hash table

`ham_hash_table_get_keys` and `ham_hash_table_to_list` go over the buckets and
their chains in the same way. The first writes to `*keys[count++]`, which is the
first cell of the array behind the variable `keys[count]`, and the caller passes
one variable only.
-/
namespace Hamlog.Library
open Foundation

variable {α σ : Type} {m : Type → Type}

/-- The loops of both functions: what is done with each item. -/
def forItems [Monad m] (table : HAMHashTable α) (f : σ → HAMHashTableItem α → m σ) (s : σ) :
    m σ :=
  (List.finRange hashLen).foldlM (fun s i => (table.items i).foldlM f s) s

/-- The items in the order of the loops. -/
def entries (table : HAMHashTable α) : List (HAMHashTableItem α) :=
  (List.finRange hashLen).flatMap table.items

/-- A store to memory that is not there: the variable is not the caller's, or the array has no
cell. -/
inductive KeysFault where
  | variable
  | cell
  deriving DecidableEq, Repr

/-- `*keys[count++] = item->key`. The variables from `keys` on hold arrays of keys. -/
def storeKey (s : List (List (Option Bytes)) × ℕ) (item : HAMHashTableItem α) :
    Except KeysFault (List (List (Option Bytes)) × ℕ) :=
  match s.1[s.2]? with
  | none => .error .variable
  | some [] => .error .cell
  | some (_ :: cells) => .ok (s.1.set s.2 (some item.key :: cells), s.2 + 1)

/-- The array that `*keys` points to, and the count as an `int`. -/
def hamHashTableGetKeys (table : HAMHashTable α) :
    Except KeysFault (List (Option Bytes) × ℤ) := do
  let keys := [List.replicate table.count none]
  let (keys, count) ← forItems table storeKey (keys, 0)
  return (keys.headD [], (count : ℤ).bmod (2 ^ 32))

section Values
open LinkedList
variable {κ δ : Type} [DecidableEq κ]

/-- `ptrs` are the results of the calls of `malloc`. -/
def storeValue (ptrs : ℕ → Option κ) (s : ListState κ δ × ℕ)
    (item : HAMHashTableItem (Option δ)) : Option (ListState κ δ × ℕ) :=
  (hamListInsertLast s.1 (ptrs s.2) item.data).map (·, s.2 + 1)

/-- `ham_hash_table_to_list` in a heap. -/
def hamHashTableToListAt (heap : Heap κ (HAMListItem κ δ)) (ptrs : ℕ → Option κ)
    (table : HAMHashTable (Option δ)) : Option (ListState κ δ) :=
  (forItems table (storeValue ptrs) ({ heap }, 0)).map Prod.fst

/-- `n` allocations succeed. -/
structure Allocates (heap : Heap κ (HAMListItem κ δ)) (ptrs : ℕ → Option κ) (n : ℕ) : Prop where
  fresh : ∀ i < n, ∃ k, ptrs i = some k ∧ heap k = none
  distinct : ∀ i < n, ∀ j < n, ptrs i = ptrs j → i = j

/-- The keys fill the array that is allocated for them, and the list reads as the values in the
order of the keys. -/
structure Enumerates (κ : Type) [DecidableEq κ] [Fintype κ] [DecidableEq δ]
    (table : HAMHashTable (Option δ)) : Prop where
  keys : hamHashTableGetKeys table =
    .ok ((entries table).map fun item => some item.key, (entries table).length)
  values : ∀ (heap : Heap κ (HAMListItem κ δ)) (ptrs : ℕ → Option κ),
    Allocates heap ptrs (entries table).length →
      ∃ state, hamHashTableToListAt heap ptrs table = some state ∧
        ReadAs state ((entries table).map (·.data))

end Values

/-! ## Both loops -/

theorem forItems_eq [Monad m] [LawfulMonad m] (table : HAMHashTable α)
    (f : σ → HAMHashTableItem α → m σ) (s : σ) :
    forItems table f s = (entries table).foldlM f s := by
  rw [forItems, entries]
  induction List.finRange hashLen generalizing s with
  | nil => simp
  | cons i buckets ih => simp only [List.foldlM_cons, List.flatMap_cons, List.foldlM_append, ih]

theorem length_entries (table : HAMHashTable α) :
    (entries table).length = ∑ hash, (table.items hash).length := by
  rw [entries, List.length_flatMap, Fin.sum_univ_def]

theorem hamHashTableToList_eq (table : HAMHashTable α) :
    hamHashTableToList table = (entries table).map (·.data) := by
  rw [hamHashTableToList, entries, List.map_flatMap]

theorem getKeys_eq (table : HAMHashTable α) : hamHashTableGetKeys table =
    ((entries table).foldlM storeKey ([List.replicate table.count none], 0)).map
      fun s => (s.1.headD [], (s.2 : ℤ).bmod (2 ^ 32)) := by
  rw [hamHashTableGetKeys, forItems_eq]
  rfl

/-- The second key goes through a variable that is not the caller's. -/
theorem getKeys_many {table : HAMHashTable α} (h : 2 ≤ (entries table).length) :
    ∃ fault, hamHashTableGetKeys table = .error fault := by
  match hentries : entries table with
  | [] => simp [hentries] at h
  | [_] => simp [hentries] at h
  | first :: second :: rest =>
    rw [getKeys_eq, hentries]
    cases table.count with
    | zero => exact ⟨.cell, rfl⟩
    | succ count => exact ⟨.variable, rfl⟩

theorem getKeys_none {table : HAMHashTable α} (h : entries table = []) :
    hamHashTableGetKeys table = .ok (List.replicate table.count none, 0) := by
  simp [getKeys_eq, h, Except.map, pure, Except.pure]

theorem getKeys_one {table : HAMHashTable α} {item : HAMHashTableItem α}
    (h : entries table = [item]) : hamHashTableGetKeys table =
      match table.count with
      | 0 => .error .cell
      | count + 1 => .ok (some item.key :: List.replicate count none, 1) := by
  rw [getKeys_eq, h]
  cases table.count with
  | zero => rfl
  | succ count => simp [storeKey, List.replicate_succ, Except.map]

theorem getKeys_iff (table : HAMHashTable α) : hamHashTableGetKeys table =
      .ok ((entries table).map fun item => some item.key, (entries table).length) ↔
    (entries table).length ≤ 1 ∧ table.count = (entries table).length := by
  match hentries : entries table with
  | [] =>
    rw [getKeys_none hentries]
    simp
  | [item] =>
    rw [getKeys_one hentries]
    cases table.count <;> simp
  | first :: second :: rest =>
    have hmany : 2 ≤ (entries table).length := by simp [hentries]
    obtain ⟨fault, hfault⟩ := getKeys_many hmany
    simp [hfault]

section Values
open LinkedList
variable {κ δ : Type} [DecidableEq κ]

theorem storeValues_spec {ptrs : ℕ → Option κ} {items : List (HAMHashTableItem (Option δ))}
    {state : ListState κ δ} {held : List (κ × Option δ)} {n : ℕ} (hholds : Holds state held)
    (hfresh : ∀ i, n ≤ i → i < n + items.length → ∃ k, ptrs i = some k ∧ state.heap k = none)
    (hdistinct : ∀ i, n ≤ i → i < n + items.length → ∀ j, n ≤ j → j < n + items.length →
      ptrs i = ptrs j → i = j) :
    ∃ next others, items.foldlM (storeValue ptrs) (state, n) = some (next, n + items.length) ∧
      Holds next others ∧ others.map Prod.snd = held.map Prod.snd ++ items.map (·.data) := by
  induction items generalizing state held n with
  | nil => exact ⟨state, held, rfl, hholds, by simp⟩
  | cons item items ih =>
    rw [List.length_cons] at hfresh hdistinct
    obtain ⟨k, hk, hfree⟩ := hfresh n le_rfl (by omega)
    obtain ⟨mid, hmid, hheld, hother⟩ := hholds.insertLast hfree item.data
    obtain ⟨next, others, hnext, hothers, hsnd⟩ := ih (n := n + 1) hheld
      (fun i hi hlt => by
        obtain ⟨j, hj, hnone⟩ := hfresh i (by omega) (by omega)
        refine ⟨j, hj, hother j ?_ hnone⟩
        rintro rfl
        have heq := hdistinct i (by omega) (by omega) n le_rfl (by omega) (hj.trans hk.symm)
        omega)
      fun i hi hlt j hj hltj => hdistinct i (by omega) (by omega) j (by omega) (by omega)
    refine ⟨next, others, ?_, hothers, by simpa using hsnd⟩
    rw [List.foldlM_cons, storeValue, hk, hmid]
    simpa [Nat.add_assoc, Nat.add_comm 1] using hnext

variable [Fintype κ] [DecidableEq δ]

theorem toListAt_readAs {table : HAMHashTable (Option δ)} {heap : Heap κ (HAMListItem κ δ)}
    {ptrs : ℕ → Option κ} (h : Allocates heap ptrs (entries table).length) :
    ∃ state, hamHashTableToListAt heap ptrs table = some state ∧
      ReadAs state ((entries table).map (·.data)) := by
  have hstart : Holds ({ heap } : ListState κ δ) [] := ⟨rfl, rfl, by simp⟩
  obtain ⟨next, others, hnext, hholds, hsnd⟩ : ∃ next others,
      (entries table).foldlM (storeValue ptrs) ({ heap }, 0) =
        some (next, 0 + (entries table).length) ∧ Holds next others ∧
        others.map Prod.snd = [] ++ (entries table).map (·.data) :=
    storeValues_spec hstart (fun i _ hi => h.fresh i (by omega))
      fun i _ hi j _ hj => h.distinct i (by omega) j (by omega)
  refine ⟨next, ?_, ?_⟩
  · rw [hamHashTableToListAt, forItems_eq, hnext]
    rfl
  · rw [List.nil_append] at hsnd
    exact hsnd ▸ hholds.readAs

/-- The keys are enumerated if and only if there is at most one, and the count is right. The list of
the values is right for every table. -/
theorem enumerates_iff (table : HAMHashTable (Option δ)) :
    Enumerates κ table ↔
      (entries table).length ≤ 1 ∧ table.count = (entries table).length :=
  ⟨fun h => (getKeys_iff table).mp h.keys,
    fun h => ⟨(getKeys_iff table).mpr h, fun _ _ halloc => toListAt_readAs halloc⟩⟩

end Values

/-! ## The count -/

theorem length_replaceOrAppend (item : HAMHashTableItem α) (items : List (HAMHashTableItem α)) :
    (replaceOrAppend item items).1.length =
      if (replaceOrAppend item items).2 then items.length + 1 else items.length := by
  induction items with
  | nil => rfl
  | cons next rest ih =>
    rw [replaceOrAppend]
    split_ifs <;> simp_all

/-- An add keeps the count right, also when it stores a key a second time. -/
theorem counted_add {table : HAMHashTable α} (h : table.count = (entries table).length)
    (key : Bytes) (keyLen : ℤ) (value : α) :
    (hamHashTableAdd table key keyLen value).count =
      (entries (hamHashTableAdd table key keyLen value)).length := by
  have hsum := sum_length_update table.items (hamHashTableDoHash key keyLen)
  rw [length_entries] at h ⊢
  simp only [hamHashTableAdd, insertItem]
  cases hbucket : table.items (hamHashTableDoHash key keyLen) with
  | nil =>
    have hlength := hsum [⟨key.take (keyLength key keyLen), value⟩]
    rw [hbucket, List.length_nil, List.length_singleton] at hlength
    dsimp only
    omega
  | cons first rest =>
    have hchain := length_replaceOrAppend ⟨key.take (keyLength key keyLen), value⟩ rest
    have hlength := hsum
      (first :: (replaceOrAppend ⟨key.take (keyLength key keyLen), value⟩ rest).1)
    rw [hbucket, List.length_cons, List.length_cons, hchain] at hlength
    dsimp only
    split_ifs at hlength ⊢ <;> omega

theorem counted_addAll (adds : List (Bytes × α)) :
    (addAll adds).count = (entries (addAll adds)).length := by
  induction adds using List.reverseRecOn with
  | nil => simp [addAll, length_entries]
  | append_singleton adds add ih => exact addAll_append adds add.1 add.2 ▸ counted_add ih _ _ _

/-- Two keys are not enumerated. -/
theorem not_enumerates_two :
    ¬ ∀ adds : List (Bytes × Option (Fin 2)), Enumerates (Fin 4) (addAll adds) := by
  intro h
  have hcount : (addAll [(bytes "a", some 0), (bytes "b", some (1 : Fin 2))]).count = 2 := by decide
  obtain ⟨fault, hfault⟩ := getKeys_many (counted_addAll _ ▸ hcount.ge)
  cases hfault.symm.trans (h _).keys

end Hamlog.Library
