import Hamlog.Library.HashTableMap
import Mathlib.Algebra.BigOperators.Fin

/-! # Removing from the hash table

The loops of `ham_hash_table_remove` move a second pointer behind the item they
look at, but only past items whose keys have another length, and the item is
taken for the first of its chain if that pointer still points there. The
places of a chain stand for its pointers.
-/
namespace Hamlog.Library
open Foundation

variable {α : Type*}

/-- The loops over the items from `tmp` on: `prev` and `tmp` when the item is found. -/
def findToRemove (key : Bytes) (prev tmp : ℕ) : List (HAMHashTableItem α) → Option (ℕ × ℕ)
  | [] => none
  | item :: rest =>
    if item.keyLen ≠ key.length then findToRemove key tmp (tmp + 1) rest
    else if item.key = key then some (prev, tmp)
    else findToRemove key prev (tmp + 1) rest

/-- The chain behind the assignment to its head, or to `prev->next`. -/
def unlinkItem (prev tmp : ℕ) (items : List (HAMHashTableItem α)) : List (HAMHashTableItem α) :=
  if prev = 0 then items.drop (tmp + 1) else items.take (prev + 1) ++ items.drop (tmp + 1)

def hamHashTableRemove (table : HAMHashTable α) (key : Bytes) (keyLen : ℤ) :
    ℤ × HAMHashTable α :=
  let hash := hamHashTableDoHash key keyLen
  match findToRemove (key.take (keyLength key keyLen)) 0 0 (table.items hash) with
  | none => (-1, table)
  | some (prev, tmp) =>
    (0, {
      items := Function.update table.items hash (unlinkItem prev tmp (table.items hash))
      count := table.count - 1 })

/-- A table that adds of keys which it does not hold and removals of any keys lead to. -/
inductive Built : HAMHashTable α → Prop where
  | new : Built {}
  | add {table : HAMHashTable α} (h : Built table) (key : Bytes) (value : α)
      (hnew : hamHashTableLookup table key (-1) = none) :
      Built (hamHashTableAdd table key (-1) value)
  | remove {table : HAMHashTable α} (h : Built table) (key : Bytes) :
      Built (hamHashTableRemove table key (-1)).2

/-- A removal takes away the key, nothing else, and only if the key is there. -/
structure RemovesExactly (table : HAMHashTable α) (key : Bytes) : Prop where
  lookup_self : hamHashTableLookup (hamHashTableRemove table key (-1)).2 key (-1) = none
  lookup_other : ∀ other, cstr other ≠ cstr key →
    hamHashTableLookup (hamHashTableRemove table key (-1)).2 other (-1) =
      hamHashTableLookup table other (-1)
  size : hamHashTableLookup table key (-1) ≠ none →
    hamHashTableGetSize (hamHashTableRemove table key (-1)).2 + 1 = hamHashTableGetSize table
  absent : hamHashTableLookup table key (-1) = none →
    hamHashTableRemove table key (-1) = (-1, table)

/-- The item of the key, if there is one, is the first of its chain, or it is behind the second
one and the item just before it has a key of another length. -/
def UnlinksAlone (table : HAMHashTable α) (key : Bytes) : Prop :=
  ∀ front item rest, table.items (hamHashTableDoHash key (-1)) = front ++ item :: rest →
    item.key = cstr key →
    front = [] ∨ ∃ first middle before, front = first :: middle ++ [before] ∧
      before.keyLen ≠ item.keyLen

/-! ## The loops -/

/-- Where `prev` stands behind items that are all skipped. -/
def trailing (key : Bytes) (prev tmp : ℕ) : List (HAMHashTableItem α) → ℕ
  | [] => prev
  | item :: rest => trailing key (if item.keyLen ≠ key.length then tmp else prev) (tmp + 1) rest

theorem findToRemove_of_notMem {key : Bytes} {items : List (HAMHashTableItem α)}
    (h : key ∉ items.map (·.key)) (prev tmp : ℕ) : findToRemove key prev tmp items = none := by
  induction items generalizing prev tmp with
  | nil => rfl
  | cons item rest ih =>
    rw [List.map_cons, List.mem_cons, not_or] at h
    rw [findToRemove, ih h.2, ih h.2, if_neg (Ne.symm h.1), ite_self]

theorem findToRemove_append {key : Bytes} {front : List (HAMHashTableItem α)}
    (h : key ∉ front.map (·.key)) {item : HAMHashTableItem α} (hitem : item.key = key)
    (rest : List (HAMHashTableItem α)) (prev tmp : ℕ) :
    findToRemove key prev tmp (front ++ item :: rest) =
      some (trailing key prev tmp front, tmp + front.length) := by
  induction front generalizing prev tmp with
  | nil => simp [findToRemove, trailing, HAMHashTableItem.keyLen, hitem]
  | cons next front ih =>
    rw [List.map_cons, List.mem_cons, not_or] at h
    rw [List.cons_append, findToRemove, ih h.2, ih h.2, if_neg (Ne.symm h.1), trailing,
      List.length_cons, Nat.add_right_comm, Nat.add_assoc]
    split_ifs <;> rfl

theorem trailing_concat (key : Bytes) (prev tmp : ℕ) (front : List (HAMHashTableItem α))
    (before : HAMHashTableItem α) :
    trailing key prev tmp (front ++ [before]) =
      if before.keyLen ≠ key.length then tmp + front.length else trailing key prev tmp front := by
  induction front generalizing prev tmp with
  | nil => rfl
  | cons next front ih =>
    rw [List.cons_append, trailing, ih, trailing, List.length_cons, Nat.add_right_comm,
      Nat.add_assoc]

/-- `prev` is behind the last of the skipped items, or where it was. -/
theorem trailing_cases (key : Bytes) (prev tmp : ℕ) (front : List (HAMHashTableItem α)) :
    trailing key prev tmp front = prev ∨ trailing key prev tmp front < tmp + front.length := by
  induction front using List.reverseRecOn with
  | nil => exact Or.inl rfl
  | append_singleton front before ih =>
    rw [trailing_concat, List.length_append, List.length_singleton]
    split_ifs
    · exact Or.inr (by omega)
    · exact ih.imp_right fun hlt => by omega

/-! ## One chain -/

theorem unlinkItem_nil (item : HAMHashTableItem α) (rest : List (HAMHashTableItem α)) :
    unlinkItem 0 0 (item :: rest) = rest := by
  rw [unlinkItem, if_pos rfl, List.drop_one, List.tail_cons]

/-- With `prev` on the item just before, which is not the first one, the item alone is left out. -/
theorem unlinkItem_concat (first : HAMHashTableItem α) (middle : List (HAMHashTableItem α))
    (before item : HAMHashTableItem α) (rest : List (HAMHashTableItem α)) :
    unlinkItem (middle.length + 1) (middle.length + 2)
      ((first :: middle ++ [before]) ++ item :: rest) =
      (first :: middle ++ [before]) ++ rest := by
  rw [unlinkItem, if_neg (Nat.succ_ne_zero _)]
  have hlen : (first :: middle ++ [before]).length = middle.length + 2 := by simp
  congr 1
  · exact List.take_left' hlen
  · rw [List.drop_append, List.drop_of_length_le (by omega), hlen]
    simp

/-- With `prev` further in front, the item just before is left out as well. -/
theorem unlinkItem_lost (front : List (HAMHashTableItem α)) (before item : HAMHashTableItem α)
    (rest : List (HAMHashTableItem α)) {prev : ℕ} (h : prev = 0 ∨ prev < front.length) :
    unlinkItem prev (front.length + 1) ((front ++ [before]) ++ item :: rest) ⊆ front ++ rest := by
  have hdrop : ((front ++ [before]) ++ item :: rest).drop (front.length + 1 + 1) = rest := by
    rw [List.drop_append, List.drop_of_length_le (by simp), List.length_append]
    simp
  rw [unlinkItem, hdrop]
  split_ifs with hprev
  · exact List.subset_append_right _ _
  · rw [List.append_assoc, List.take_append_of_le_length (by omega)]
    exact List.append_subset.mpr ⟨List.subset_append_of_subset_left _ (List.take_subset _ _),
      List.subset_append_right _ _⟩

theorem unlinkItem_sublist {prev tmp : ℕ} (h : prev = 0 ∨ prev < tmp)
    (items : List (HAMHashTableItem α)) :
    List.Sublist (unlinkItem prev tmp items) items := by
  rw [unlinkItem]
  split_ifs with hprev
  · exact List.drop_sublist _ _
  · calc List.Sublist (items.take (prev + 1) ++ items.drop (tmp + 1))
          (items.take (tmp + 1) ++ items.drop (tmp + 1)) :=
        (List.take_sublist_take_left (by omega)).append (List.Sublist.refl _)
      _ = items := List.take_append_drop _ _

theorem unlinkItem_length {prev tmp : ℕ} (h : prev = 0 ∨ prev < tmp)
    (items : List (HAMHashTableItem α)) (htmp : tmp < items.length) :
    (unlinkItem prev tmp items).length + 1 ≤ items.length := by
  rw [unlinkItem]
  split_ifs
  · rw [List.length_drop]
    omega
  · rw [List.length_append, List.length_drop, List.length_take]
    omega

/-! ## Tables that adds and removals lead to -/

/-- The chains hold different keys, each in its own bucket, and the table counts at least the items
that it still holds. -/
structure WellFormed (table : HAMHashTable α) : Prop where
  nodup : ∀ hash, ((table.items hash).map (·.key)).Nodup
  home : ∀ hash, ∀ item ∈ table.items hash,
    hamHashTableDoHash item.key (-1) = hash ∧ cstr item.key = item.key
  size : ∑ hash, (table.items hash).length ≤ table.count

theorem hamHashTableLookup_eq_none (table : HAMHashTable α) (key : Bytes) :
    hamHashTableLookup table key (-1) = none ↔
      cstr key ∉ (table.items (hamHashTableDoHash key (-1))).map (·.key) := by
  rw [hamHashTableLookup_eq, Option.map_eq_none_iff, KeyedList.find, List.find?_eq_none]
  simp

/-- Either the key is in no item, or the chain of its bucket is parted by its item. -/
theorem WellFormed.chain {table : HAMHashTable α} (h : WellFormed table) (key : Bytes) :
    cstr key ∉ (table.items (hamHashTableDoHash key (-1))).map (·.key) ∨
      ∃ front item rest, table.items (hamHashTableDoHash key (-1)) = front ++ item :: rest ∧
        item.key = cstr key ∧ cstr key ∉ front.map (·.key) ∧ cstr key ∉ rest.map (·.key) := by
  refine or_iff_not_imp_left.mpr fun hmem => ?_
  obtain ⟨item, hitem, hkey⟩ := List.mem_map.mp (not_not.mp hmem)
  obtain ⟨front, rest, hitems⟩ := List.append_of_mem hitem
  have hnodup := h.nodup (hamHashTableDoHash key (-1))
  rw [hitems, List.map_append, List.map_cons, List.nodup_middle, List.nodup_cons, hkey,
    List.mem_append, not_or] at hnodup
  exact ⟨front, item, rest, hitems, hkey, hnodup.1⟩

theorem hamHashTableRemove_absent {table : HAMHashTable α} {key : Bytes}
    (h : cstr key ∉ (table.items (hamHashTableDoHash key (-1))).map (·.key)) :
    hamHashTableRemove table key (-1) = (-1, table) := by
  simp only [hamHashTableRemove, take_keyLength, findToRemove_of_notMem h]

theorem hamHashTableRemove_present {table : HAMHashTable α} {key : Bytes}
    {front rest : List (HAMHashTableItem α)} {item : HAMHashTableItem α}
    (hitems : table.items (hamHashTableDoHash key (-1)) = front ++ item :: rest)
    (hkey : item.key = cstr key) (hfront : cstr key ∉ front.map (·.key)) :
    hamHashTableRemove table key (-1) = (0, {
      items := Function.update table.items (hamHashTableDoHash key (-1))
        (unlinkItem (trailing (cstr key) 0 0 front) front.length (front ++ item :: rest))
      count := table.count - 1 }) := by
  simp only [hamHashTableRemove, take_keyLength, hitems, findToRemove_append hfront hkey, zero_add]

/-- The chain of the removed item gets shorter, and the others stay. -/
theorem sum_length_update (items : Fin hashLen → List (HAMHashTableItem α)) (hash : Fin hashLen)
    (chain : List (HAMHashTableItem α)) :
    ∑ h, (Function.update items hash chain h).length + (items hash).length =
      ∑ h, (items h).length + chain.length := by
  have hother : ∑ h ∈ Finset.univ.erase hash, (Function.update items hash chain h).length =
      ∑ h ∈ Finset.univ.erase hash, (items h).length :=
    Finset.sum_congr rfl fun h hh => by rw [Function.update_of_ne (Finset.ne_of_mem_erase hh)]
  rw [← Finset.add_sum_erase _ _ (Finset.mem_univ hash),
    ← Finset.add_sum_erase _ (fun h => (items h).length) (Finset.mem_univ hash), hother,
    Function.update_self]
  omega

theorem wellFormed_new : WellFormed ({} : HAMHashTable α) where
  nodup _ := List.nodup_nil
  home _ _ h := absurd h List.not_mem_nil
  size := by simp

theorem putBehindFirst_of_notMem {item : HAMHashTableItem α} {items : List (HAMHashTableItem α)}
    (h : item.key ∉ items.map (·.key)) : putBehindFirst item items = items ++ [item] := by
  cases items with
  | nil => rfl
  | cons first rest =>
    rw [List.map_cons, List.mem_cons, not_or] at h
    rw [putBehindFirst, KeyedList.put_of_notMem _ h.2, List.cons_append]

/-- A table with one of its chains replaced. -/
theorem WellFormed.update {table : HAMHashTable α} (h : WellFormed table) {hash : Fin hashLen}
    {chain : List (HAMHashTableItem α)} {count : ℕ} (hnodup : (chain.map (·.key)).Nodup)
    (hhome : ∀ item ∈ chain, hamHashTableDoHash item.key (-1) = hash ∧ cstr item.key = item.key)
    (hcount : table.count + chain.length ≤ count + (table.items hash).length) :
    WellFormed { items := Function.update table.items hash chain, count := count } where
  nodup other := by
    rcases eq_or_ne other hash with rfl | hne
    · simpa only [Function.update_self] using hnodup
    · simpa only [Function.update_of_ne hne] using h.nodup other
  home other := by
    rcases eq_or_ne other hash with rfl | hne
    · simpa only [Function.update_self] using hhome
    · simpa only [Function.update_of_ne hne] using h.home other
  size := by
    have hsum := sum_length_update table.items hash chain
    have hsize := h.size
    dsimp only
    omega

/-- A new key comes last in its chain. -/
theorem WellFormed.add {table : HAMHashTable α} (h : WellFormed table) {key : Bytes}
    (hnew : hamHashTableLookup table key (-1) = none) (value : α) :
    WellFormed (hamHashTableAdd table key (-1) value) := by
  rw [hamHashTableLookup_eq_none] at hnew
  have hitems := hamHashTableAdd_items table key value
  have hcount := hamHashTableAdd_count table key value
  have htail : cstr key ∉ (table.items (hamHashTableDoHash key (-1))).tail.map (·.key) :=
    fun hmem => hnew (List.map_subset _ (List.tail_subset _) hmem)
  rw [putBehindFirst_of_notMem hnew] at hitems
  rw [if_neg htail] at hcount
  generalize hamHashTableAdd table key (-1) value = added at hitems hcount
  obtain ⟨items, count⟩ := added
  subst hitems hcount
  refine h.update ?_ (fun item hitem => ?_) (by simp; omega)
  · rw [List.map_append, List.map_singleton, ← List.concat_eq_append]
    exact (h.nodup _).concat hnew
  · rcases List.mem_append.mp hitem with hold | hitem
    · exact h.home _ item hold
    · obtain rfl := List.mem_singleton.mp hitem
      exact ⟨hamHashTableDoHash_cstr key, cstr_of_notMem (zero_notMem_cstr key)⟩

/-- What is left of a chain is well formed, and a removal takes at least one item away. -/
theorem WellFormed.remove {table : HAMHashTable α} (h : WellFormed table) (key : Bytes) :
    WellFormed (hamHashTableRemove table key (-1)).2 := by
  rcases h.chain key with habsent | ⟨front, item, rest, hitems, hkey, hfront, -⟩
  · rw [hamHashTableRemove_absent habsent]
    exact h
  have hprev := trailing_cases (cstr key) 0 0 front
  rw [zero_add] at hprev
  have hsub := unlinkItem_sublist hprev (front ++ item :: rest)
  have hlength := unlinkItem_length hprev (front ++ item :: rest) (by simp)
  rw [hamHashTableRemove_present hitems hkey hfront]
  rw [← hitems] at hsub hlength ⊢
  refine h.update ((h.nodup _).sublist (hsub.map _))
    (fun other hother => h.home _ other (hsub.subset hother)) ?_
  omega

theorem Built.wellFormed {table : HAMHashTable α} (h : Built table) : WellFormed table := by
  induction h with
  | new => exact wellFormed_new
  | add _ key value hnew ih => exact ih.add hnew value
  | remove _ key ih => exact ih.remove key

/-! ## What a removal leaves -/

theorem hamHashTableRemove_items {table : HAMHashTable α} {key : Bytes}
    {front rest : List (HAMHashTableItem α)} {item : HAMHashTableItem α}
    (hitems : table.items (hamHashTableDoHash key (-1)) = front ++ item :: rest)
    (hkey : item.key = cstr key) (hfront : cstr key ∉ front.map (·.key)) :
    (hamHashTableRemove table key (-1)).2.items =
      Function.update table.items (hamHashTableDoHash key (-1))
        (unlinkItem (trailing (cstr key) 0 0 front) front.length (front ++ item :: rest)) := by
  rw [hamHashTableRemove_present hitems hkey hfront]

/-- The removal of an item on its own. -/
theorem removesExactly_of_alone {table : HAMHashTable α} (h : WellFormed table) {key : Bytes}
    {front rest : List (HAMHashTableItem α)} {item : HAMHashTableItem α}
    (hitems : table.items (hamHashTableDoHash key (-1)) = front ++ item :: rest)
    (hkey : item.key = cstr key) (hfront : cstr key ∉ front.map (·.key))
    (hrest : cstr key ∉ rest.map (·.key))
    (halone : unlinkItem (trailing (cstr key) 0 0 front) front.length (front ++ item :: rest) =
      front ++ rest) : RemovesExactly table key := by
  have hpresent : hamHashTableLookup table key (-1) ≠ none := by
    rw [Ne, hamHashTableLookup_eq_none, hitems, not_not]
    simp [hkey]
  have hremove := hamHashTableRemove_items hitems hkey hfront
  rw [halone] at hremove
  refine ⟨?_, fun other hother => ?_, fun _ => ?_, fun habsent => absurd habsent hpresent⟩
  · rw [hamHashTableLookup_eq_none, hremove, Function.update_self, List.map_append,
      List.mem_append, not_or]
    exact ⟨hfront, hrest⟩
  · rw [hamHashTableLookup_eq, hamHashTableLookup_eq, hremove]
    by_cases hhash : hamHashTableDoHash other (-1) = hamHashTableDoHash key (-1)
    · rw [hhash, hitems, Function.update_self]
      simp only [KeyedList.find, List.find?_append]
      rw [List.find?_cons_of_neg (by simpa [hkey] using Ne.symm hother)]
    · rw [Function.update_of_ne hhash]
  · have hsum := Finset.single_le_sum (fun hash _ => Nat.zero_le (table.items hash).length)
      (Finset.mem_univ (hamHashTableDoHash key (-1)))
    have hsize := h.size
    rw [hitems, List.length_append, List.length_cons] at hsum
    rw [hamHashTableRemove_present hitems hkey hfront, hamHashTableGetSize, hamHashTableGetSize]
    dsimp only
    omega

/-- A removal that loses the item before its own is not exact. -/
theorem not_removesExactly_of_lost {table : HAMHashTable α} (h : WellFormed table) {key : Bytes}
    {front rest : List (HAMHashTableItem α)} {before item : HAMHashTableItem α}
    (hitems : table.items (hamHashTableDoHash key (-1)) = (front ++ [before]) ++ item :: rest)
    (hkey : item.key = cstr key) (hfront : cstr key ∉ (front ++ [before]).map (·.key))
    (hlost : unlinkItem (trailing (cstr key) 0 0 (front ++ [before])) (front.length + 1)
      ((front ++ [before]) ++ item :: rest) ⊆ front ++ rest) : ¬ RemovesExactly table key := by
  intro hexact
  have hmem : before ∈ table.items (hamHashTableDoHash key (-1)) := by simp [hitems]
  obtain ⟨hhome, hcstr⟩ := h.home _ before hmem
  have hother : cstr before.key ≠ cstr key := by
    rw [hcstr]
    rintro hsame
    exact hfront (by simp [hsame])
  have hkept : hamHashTableLookup table before.key (-1) ≠ none := by
    rw [Ne, hamHashTableLookup_eq_none, hcstr, hhome, not_not]
    exact List.mem_map_of_mem hmem
  have hnodup := h.nodup (hamHashTableDoHash key (-1))
  rw [← hexact.lookup_other _ hother, Ne, hamHashTableLookup_eq_none, not_not, hcstr, hhome,
    hamHashTableRemove_items hitems hkey hfront, Function.update_self, List.length_append,
    List.length_singleton] at hkept
  obtain ⟨other, hleft, hsame⟩ := List.mem_map.mp hkept
  rw [hitems, List.append_assoc, List.map_append, List.nodup_append] at hnodup
  rcases List.mem_append.mp (hlost hleft) with hin | hin
  · exact hnodup.2.2 _ (List.mem_map_of_mem hin) before.key (by simp) hsame
  · have hback := hnodup.2.1
    rw [List.singleton_append, List.map_cons, List.nodup_cons] at hback
    exact hback.1 (hsame ▸ List.mem_map_of_mem (List.mem_cons_of_mem _ hin))

/-- A chain holds the item of a key in one place only. -/
theorem unlinksAlone_iff {table : HAMHashTable α} {key : Bytes}
    {front rest : List (HAMHashTableItem α)} {item : HAMHashTableItem α}
    (hitems : table.items (hamHashTableDoHash key (-1)) = front ++ item :: rest)
    (hkey : item.key = cstr key) (hfront : cstr key ∉ front.map (·.key))
    (hrest : cstr key ∉ rest.map (·.key)) :
    UnlinksAlone table key ↔ front = [] ∨ ∃ first middle before,
      front = first :: middle ++ [before] ∧ before.keyLen ≠ item.keyLen := by
  refine ⟨fun h => h front item rest hitems hkey, fun h front' item' rest' hitems' hkey' => ?_⟩
  have hnotMem {items : List (HAMHashTableItem α)} (hout : cstr key ∉ items.map (·.key)) :
      item' ∉ items := fun hmem => hout (hkey' ▸ List.mem_map_of_mem hmem)
  obtain ⟨rfl, rfl, -⟩ := (List.append_cons_inj_of_notMem (hnotMem hfront) (hnotMem hrest)).mp
    (hitems.symm.trans hitems')
  exact h

/-- A removal is exact if and only if the key is in no item, or its item is the first of its chain,
or it has two items before it and the nearer one has a key of another length. -/
theorem removesExactly_iff {table : HAMHashTable α} (h : Built table) (key : Bytes) :
    RemovesExactly table key ↔ UnlinksAlone table key := by
  have hwell := h.wellFormed
  rcases hwell.chain key with habsent | ⟨front, item, rest, hitems, hkey, hfront, hrest⟩
  · have hremove := hamHashTableRemove_absent habsent
    refine iff_of_true ⟨?_, fun _ _ => by rw [hremove], fun hpresent => ?_, fun _ => hremove⟩ ?_
    · rwa [hremove, hamHashTableLookup_eq_none]
    · exact absurd ((hamHashTableLookup_eq_none table key).mpr habsent) hpresent
    · intro front item rest hitems hkey
      exact absurd (by simp [hitems, hkey]) habsent
  rw [unlinksAlone_iff hitems hkey hfront hrest]
  have hlen : item.keyLen = (cstr key).length := congrArg List.length hkey
  rcases List.eq_nil_or_concat front with rfl | ⟨front, before, rfl⟩
  · exact iff_of_true (removesExactly_of_alone hwell hitems hkey hfront hrest
      (unlinkItem_nil item rest)) (Or.inl rfl)
  rw [List.concat_eq_append] at *
  have hplace := trailing_concat (cstr key) 0 0 front before
  rw [zero_add] at hplace
  by_cases hbefore : before.keyLen = item.keyLen
  · -- `prev` did not follow past the item just before.
    rw [if_neg (by simp [hbefore, hlen])] at hplace
    have hcases := trailing_cases (cstr key) 0 0 front
    rw [zero_add, ← hplace] at hcases
    refine iff_of_false (not_removesExactly_of_lost hwell hitems hkey hfront
      (unlinkItem_lost front before item rest hcases)) ?_
    rintro (hnil | ⟨first, middle, before', hfronts, hne⟩)
    · simp at hnil
    · obtain rfl := (List.cons.inj (List.append_inj' hfronts rfl).2).1
      exact hne hbefore
  rw [if_pos (by simpa [hlen] using hbefore)] at hplace
  cases front with
  | nil =>
    refine iff_of_false (not_removesExactly_of_lost hwell hitems hkey hfront
      (unlinkItem_lost [] before item rest (Or.inl hplace))) ?_
    rintro (hnil | ⟨first, middle, before', hfronts, -⟩)
    · simp at hnil
    · simpa using congrArg List.length hfronts
  | cons first middle =>
    refine iff_of_true (removesExactly_of_alone hwell hitems hkey hfront hrest ?_)
      (Or.inr ⟨first, middle, before, rfl, hbefore⟩)
    rw [hplace, List.length_append, List.length_cons, List.length_singleton]
    exact unlinkItem_concat first middle before item rest

/-- Two keys of one length in one bucket. -/
def collision : HAMHashTable ℕ :=
  hamHashTableAdd (hamHashTableAdd {} (bytes "Ao") (-1) 1) (bytes "B0") (-1) 2

theorem built_collision : Built collision :=
  (Built.new.add (bytes "Ao") 1 rfl).add (bytes "B0") 2 (by decide)

theorem removesExactly_iff_collision :
    RemovesExactly collision (bytes "Ao") ↔ UnlinksAlone collision (bytes "Ao") :=
  removesExactly_iff built_collision (bytes "Ao")

/-- The removal of the second item of a chain removes the first one with it. -/
theorem not_removesExactly_collision : ¬ ∀ table : HAMHashTable ℕ, Built table → ∀ key,
    RemovesExactly table key := by
  intro h
  have hother := (h collision built_collision (bytes "B0")).lookup_other (bytes "Ao") (by decide)
  exact absurd hother (by decide)

end Hamlog.Library
