import Hamlog.Library.HashTable

/-! # Adding to the hash table as an update of a map

After any sequence of adds, a table is the map of the last values if no add
repeats the key that was the first of its bucket. Every repetition of such a
key puts the count out of step with the number of keys for good.
-/
namespace Hamlog.Library
open Foundation

variable {α : Type*}

/-- The table behind a sequence of adds of string keys. -/
def addAll (adds : List (Bytes × α)) : HAMHashTable α :=
  adds.foldl (fun table add => hamHashTableAdd table add.1 (-1) add.2) {}

def distinctKeys (adds : List (Bytes × α)) : Finset Bytes :=
  (adds.map fun add => cstr add.1).toFinset

/-- An add behind the sequence updates the map that the table stands for. -/
structure UpdatesMap (adds : List (Bytes × α)) (key : Bytes) (value : α) : Prop where
  lookup_self : hamHashTableLookup (addAll (adds ++ [(key, value)])) key (-1) = some value
  lookup_other : ∀ other, cstr other ≠ cstr key →
    hamHashTableLookup (addAll (adds ++ [(key, value)])) other (-1) =
      hamHashTableLookup (addAll adds) other (-1)
  size : hamHashTableGetSize (addAll (adds ++ [(key, value)])) =
    (distinctKeys (adds ++ [(key, value)])).card

/-- The first key that came to a bucket. -/
def firstKey (adds : List (Bytes × α)) (hash : Fin hashLen) : Option Bytes :=
  (adds.find? fun add => hamHashTableDoHash add.1 (-1) = hash).map fun add => cstr add.1

/-- No add repeats the first key of its bucket. -/
def FirstOnce (adds : List (Bytes × α)) : Prop :=
  ∀ front add back, adds = front ++ add :: back →
    firstKey front (hamHashTableDoHash add.1 (-1)) ≠ some (cstr add.1)

theorem firstOnce_append (adds : List (Bytes × α)) (add : Bytes × α) :
    FirstOnce (adds ++ [add]) ↔
      FirstOnce adds ∧ firstKey adds (hamHashTableDoHash add.1 (-1)) ≠ some (cstr add.1) := by
  constructor
  · intro h
    exact ⟨fun front a back hadds => h front a (back ++ [add]) (by simp [hadds]),
      h adds add [] rfl⟩
  · rintro ⟨h, hlast⟩ front a back hadds
    rcases List.eq_nil_or_concat back with rfl | ⟨back, b, rfl⟩
    · obtain ⟨rfl, hab⟩ := List.append_inj' hadds rfl
      obtain rfl := (List.cons.inj hab).1
      exact hlast
    · rw [List.concat_eq_append, ← List.cons_append, ← List.append_assoc] at hadds
      exact h front a back (List.append_inj' hadds rfl).1

/-! ## One add -/

/-- The hash of a string is that of the bytes before its zero. -/
theorem hamHashTableDoHash_cstr (key : Bytes) :
    hamHashTableDoHash (cstr key) (-1) = hamHashTableDoHash key (-1) := by
  simp only [hamHashTableDoHash, cstr_of_notMem (zero_notMem_cstr key)]

/-- A chain with an item put in behind its first one. -/
def putBehindFirst (item : HAMHashTableItem α) :
    List (HAMHashTableItem α) → List (HAMHashTableItem α)
  | [] => [item]
  | first :: rest => first :: KeyedList.put (·.key) item rest

theorem hamHashTableAdd_items (table : HAMHashTable α) (key : Bytes) (value : α) :
    (hamHashTableAdd table key (-1) value).items =
      Function.update table.items (hamHashTableDoHash key (-1))
        (putBehindFirst ⟨cstr key, value⟩ (table.items (hamHashTableDoHash key (-1)))) := by
  simp only [hamHashTableAdd, insertItem, take_keyLength]
  cases table.items (hamHashTableDoHash key (-1)) with
  | nil => rfl
  | cons first rest => simp only [replaceOrAppend_eq, putBehindFirst]

theorem hamHashTableAdd_count (table : HAMHashTable α) (key : Bytes) (value : α) :
    (hamHashTableAdd table key (-1) value).count = table.count +
      if cstr key ∈ (table.items (hamHashTableDoHash key (-1))).tail.map (·.key) then 0 else 1 := by
  simp only [hamHashTableAdd, insertItem, take_keyLength]
  cases table.items (hamHashTableDoHash key (-1)) with
  | nil => rfl
  | cons first rest =>
    simp only [replaceOrAppend_eq, List.tail_cons]
    by_cases h : cstr key ∈ rest.map (·.key) <;> simp [h]

theorem hamHashTableLookup_eq (table : HAMHashTable α) (key : Bytes) :
    hamHashTableLookup table key (-1) = (KeyedList.find (·.key) (cstr key)
      (table.items (hamHashTableDoHash key (-1)))).map (·.data) := by
  rw [hamHashTableLookup, take_keyLength, findItem_eq]

theorem find_putBehindFirst (item : HAMHashTableItem α) (items : List (HAMHashTableItem α))
    (h : items.head?.map (·.key) ≠ some item.key) :
    KeyedList.find (·.key) item.key (putBehindFirst item items) = some item := by
  cases items with
  | nil => rw [putBehindFirst, KeyedList.find_cons, if_pos rfl]
  | cons first rest =>
    rw [putBehindFirst, KeyedList.find_cons, if_neg (by simpa using h)]
    exact KeyedList.find_put_self _ item rest

theorem find_putBehindFirst_of_ne {item : HAMHashTableItem α} {key : Bytes} (h : key ≠ item.key)
    (items : List (HAMHashTableItem α)) :
    KeyedList.find (·.key) key (putBehindFirst item items) = KeyedList.find (·.key) key items := by
  cases items with
  | nil => rw [putBehindFirst, KeyedList.find_cons, if_neg (Ne.symm h)]
  | cons first rest =>
    rw [putBehindFirst, KeyedList.find_cons, KeyedList.find_cons,
      KeyedList.find_put_of_ne _ h]

theorem mem_keys_putBehindFirst (item : HAMHashTableItem α) (items : List (HAMHashTableItem α))
    (key : Bytes) :
    key ∈ (putBehindFirst item items).map (·.key) ↔
      key = item.key ∨ key ∈ items.map (·.key) := by
  cases items with
  | nil => simp [putBehindFirst]
  | cons first rest =>
    have hput := KeyedList.mem_keys_put (·.key) item rest key
    rw [putBehindFirst, List.map_cons, List.mem_cons, hput, List.map_cons, List.mem_cons]
    tauto

/-- The add is found unless its key is the first of its bucket. -/
theorem lookup_add_self (table : HAMHashTable α) (key : Bytes) (value : α)
    (h : (table.items (hamHashTableDoHash key (-1))).head?.map (·.key) ≠ some (cstr key)) :
    hamHashTableLookup (hamHashTableAdd table key (-1) value) key (-1) = some value := by
  rw [hamHashTableLookup_eq, hamHashTableAdd_items, Function.update_self,
    find_putBehindFirst ⟨cstr key, value⟩ _ h]
  rfl

theorem lookup_add_other (table : HAMHashTable α) {key other : Bytes} (value : α)
    (h : cstr other ≠ cstr key) :
    hamHashTableLookup (hamHashTableAdd table key (-1) value) other (-1) =
      hamHashTableLookup table other (-1) := by
  rw [hamHashTableLookup_eq, hamHashTableLookup_eq, hamHashTableAdd_items]
  by_cases hhash : hamHashTableDoHash other (-1) = hamHashTableDoHash key (-1)
  · rw [hhash, Function.update_self, find_putBehindFirst_of_ne h]
  · rw [Function.update_of_ne hhash]

/-! ## Sequences of adds -/

/-- What the table behind a sequence of adds holds. -/
structure Represents (adds : List (Bytes × α)) (table : HAMHashTable α) : Prop where
  head : ∀ hash, (table.items hash).head?.map (·.key) = firstKey adds hash
  keys : ∀ key, key ∈ (table.items (hamHashTableDoHash key (-1))).map (·.key) ↔
    key ∈ distinctKeys adds
  once : FirstOnce adds → ∀ hash first rest, table.items hash = first :: rest →
    first.key ∉ rest.map (·.key)
  le_count : (distinctKeys adds).card ≤ table.count
  count_iff : table.count = (distinctKeys adds).card ↔ FirstOnce adds

theorem represents_nil : Represents ([] : List (Bytes × α)) {} where
  head _ := rfl
  keys key := by simp [distinctKeys]
  once _ hash first rest h := by simp at h
  le_count := by simp [distinctKeys]
  count_iff := by
    refine iff_of_true (by simp [distinctKeys]) fun front add back h => ?_
    exact absurd (congrArg List.length h) (by simp)

theorem distinctKeys_append (adds : List (Bytes × α)) (key : Bytes) (value : α) :
    distinctKeys (adds ++ [(key, value)]) = insert (cstr key) (distinctKeys adds) := by
  simp only [distinctKeys, List.map_append, List.map_cons, List.map_nil, List.toFinset_append]
  rw [Finset.union_comm]
  rfl

theorem firstKey_append (adds : List (Bytes × α)) (key : Bytes) (value : α) (hash : Fin hashLen) :
    firstKey (adds ++ [(key, value)]) hash = (firstKey adds hash).or
      (if hamHashTableDoHash key (-1) = hash then some (cstr key) else none) := by
  rw [firstKey, List.find?_append, firstKey]
  cases adds.find? fun add => hamHashTableDoHash add.1 (-1) = hash with
  | some add => rfl
  | none => by_cases h : hamHashTableDoHash key (-1) = hash <;> simp [h]

theorem head_putBehindFirst (item : HAMHashTableItem α) (items : List (HAMHashTableItem α)) :
    (putBehindFirst item items).head?.map (·.key) =
      (items.head?.map (·.key)).or (some item.key) := by
  cases items <;> rfl

namespace Represents
variable {adds : List (Bytes × α)} {table : HAMHashTable α}

/-- The count and the number of distinct keys move together, except when the first key of a bucket
is repeated. -/
theorem count_add (h : Represents adds table) (key : Bytes) (value : α) :
    let added := hamHashTableAdd table key (-1) value
    (distinctKeys (adds ++ [(key, value)])).card ≤ added.count ∧
      (added.count = (distinctKeys (adds ++ [(key, value)])).card ↔
        FirstOnce (adds ++ [(key, value)])) := by
  have hle := h.le_count
  have hiff := h.count_iff
  have hkeys := h.keys (cstr key)
  have hhead := h.head (hamHashTableDoHash key (-1))
  have honce := h.once
  rw [hamHashTableDoHash_cstr] at hkeys
  simp only [firstOnce_append, hamHashTableAdd_count, distinctKeys_append]
  rw [← hhead]
  cases hbucket : table.items (hamHashTableDoHash key (-1)) with
  | nil =>
    have hnew : cstr key ∉ distinctKeys adds := by simpa [hbucket] using hkeys
    rw [Finset.card_insert_of_notMem hnew]
    simpa using ⟨hle, hiff⟩
  | cons first rest =>
    rw [hbucket, List.map_cons, List.mem_cons] at hkeys
    have hone : some first.key ≠ some (cstr key) ↔ cstr key ≠ first.key := by simp [eq_comm]
    rw [List.tail_cons, List.head?_cons, Option.map_some, hone]
    by_cases hfirst : cstr key = first.key
    · have hold : cstr key ∈ distinctKeys adds := hkeys.mp (Or.inl hfirst)
      rw [Finset.insert_eq_self.mpr hold]
      by_cases hrest : cstr key ∈ rest.map (·.key)
      · have hnot : ¬ FirstOnce adds := fun hadds => honce hadds _ _ _ hbucket (hfirst ▸ hrest)
        rw [if_pos hrest]
        exact ⟨hle, ⟨fun heq => absurd (hiff.mp heq) hnot, fun hand => absurd hfirst hand.2⟩⟩
      · rw [if_neg hrest]
        exact ⟨by omega, ⟨fun heq => by omega, fun hand => absurd hfirst hand.2⟩⟩
    · by_cases hrest : cstr key ∈ rest.map (·.key)
      · have hold : cstr key ∈ distinctKeys adds := hkeys.mp (Or.inr hrest)
        rw [Finset.insert_eq_self.mpr hold, if_pos hrest]
        exact ⟨hle, hiff.trans (by simp [hfirst])⟩
      · have hnew : cstr key ∉ distinctKeys adds := fun hmem => (hkeys.mpr hmem).elim hfirst hrest
        rw [Finset.card_insert_of_notMem hnew, if_neg hrest]
        exact ⟨by omega, (by omega : table.count + 1 = (distinctKeys adds).card + 1 ↔
          table.count = (distinctKeys adds).card).trans (hiff.trans (by simp [hfirst]))⟩

/-- One more add. -/
theorem add (h : Represents adds table) (key : Bytes) (value : α) :
    Represents (adds ++ [(key, value)]) (hamHashTableAdd table key (-1) value) where
  head hash := by
    rw [firstKey_append, ← h.head, hamHashTableAdd_items]
    by_cases hhash : hamHashTableDoHash key (-1) = hash
    · subst hhash
      rw [Function.update_self, head_putBehindFirst, if_pos rfl]
    · rw [Function.update_of_ne (Ne.symm hhash), if_neg hhash, Option.or_none]
  keys other := by
    rw [distinctKeys_append, Finset.mem_insert, ← h.keys, hamHashTableAdd_items]
    by_cases hhash : hamHashTableDoHash other (-1) = hamHashTableDoHash key (-1)
    · rw [hhash, Function.update_self, mem_keys_putBehindFirst]
    · have hne : other ≠ cstr key := by
        rintro rfl
        exact hhash (hamHashTableDoHash_cstr key)
      rw [Function.update_of_ne hhash]
      simp [hne]
  once hadds hash first rest hitems := by
    obtain ⟨hold, hnot⟩ := (firstOnce_append adds (key, value)).mp hadds
    rw [hamHashTableAdd_items] at hitems
    by_cases hhash : hash = hamHashTableDoHash key (-1)
    · subst hhash
      rw [Function.update_self] at hitems
      rw [← h.head] at hnot
      cases hbucket : table.items (hamHashTableDoHash key (-1)) with
      | nil =>
        rw [hbucket, putBehindFirst] at hitems
        simp [← (List.cons.inj hitems).2]
      | cons first' rest' =>
        rw [hbucket, putBehindFirst] at hitems
        obtain ⟨rfl, rfl⟩ := List.cons.inj hitems
        rw [KeyedList.mem_keys_put, not_or]
        refine ⟨?_, h.once hold _ _ _ hbucket⟩
        simpa [hbucket] using hnot
    · rw [Function.update_of_ne hhash] at hitems
      exact h.once hold _ _ _ hitems
  le_count := (h.count_add key value).1
  count_iff := (h.count_add key value).2

end Represents

theorem addAll_append (adds : List (Bytes × α)) (key : Bytes) (value : α) :
    addAll (adds ++ [(key, value)]) = hamHashTableAdd (addAll adds) key (-1) value := by
  simp [addAll]

theorem represents_addAll (adds : List (Bytes × α)) : Represents adds (addAll adds) := by
  induction adds using List.reverseRecOn with
  | nil => exact represents_nil
  | append_singleton adds add ih =>
    obtain ⟨key, value⟩ := add
    rw [addAll_append]
    exact ih.add key value

/-- An add behind a sequence of adds updates the map if and only if no add, this one included,
repeats the first key of its bucket. -/
theorem updatesMap_iff (adds : List (Bytes × α)) (key : Bytes) (value : α) :
    UpdatesMap adds key value ↔ FirstOnce (adds ++ [(key, value)]) := by
  have hrep := represents_addAll (adds ++ [(key, value)])
  refine ⟨fun h => hrep.count_iff.mp h.size, fun h => ⟨?_, fun other hother => ?_, ?_⟩⟩
  · have hhead := (represents_addAll adds).head (hamHashTableDoHash key (-1))
    rw [addAll_append]
    refine lookup_add_self _ key value ?_
    rw [hhead]
    exact ((firstOnce_append adds (key, value)).mp h).2
  · rw [addAll_append, lookup_add_other _ value hother]
  · exact hrep.count_iff.mpr h

/-- A second add of the only key leaves the first value in front of its own. -/
theorem not_updatesMap_ahoj : ¬ UpdatesMap [(bytes "ahoj", 1)] (bytes "ahoj") 2 := by
  intro h
  exact absurd h.lookup_self (by decide)

end Hamlog.Library
