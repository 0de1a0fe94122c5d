import Hamlog.Library.HashTableHeap
import Hamlog.Library.HashTableKeys
import Mathlib.Data.Multiset.Basic

/-! # The memory of the hash table over whole runs

Every item that was ever added is in the chain of a bucket, or it was freed, or a
removal has lost it, and it is in one of these places only. The operations on
the memory do to the chains what the operations on lists do, so the two tables
agree in every run; a table that is destroyed frees what is in its chains, and what
is left in the memory are the lost items.
-/
namespace Hamlog.Library.TableHeap
open Foundation

variable {κ α : Type}

/-- An add comes with what `calloc` and `malloc` return. -/
inductive TableOperation (κ α : Type) where
  | add (ptr : Option κ) (key : Bytes) (value : α)
  | remove (key : Bytes)

namespace TableOperation

/-- Memory that is allocated was not allocated before. -/
def fresh (heap : Heap κ (TableCell κ α)) : TableOperation κ α → Bool
  | .add ptr _ _ => ptr.all fun k => (heap k).isNone
  | .remove _ => true

/-- What an operation returns and does to the table of lists. Nothing is added without memory. -/
def apply (table : HAMHashTable α) : TableOperation κ α → ℤ × HAMHashTable α
  | .add none _ _ => (-1, table)
  | .add (some _) key value => (0, Library.hamHashTableAdd table key (-1) value)
  | .remove key => Library.hamHashTableRemove table key (-1)

/-- The data that the table is given. -/
def added : TableOperation κ α → List α
  | .add (some _) _ value => [value]
  | _ => []

/-- The data that an operation loses. -/
def lost (table : HAMHashTable α) : TableOperation κ α → List α
  | .add _ _ _ => []
  | .remove key =>
    (lostItems (cstr key) (table.items (hamHashTableDoHash key (-1)))).map (·.data)

end TableOperation

/-- The table of lists that operations make of another one. -/
def tableAfter (table : HAMHashTable α) (operations : List (TableOperation κ α)) : HAMHashTable α :=
  operations.foldl (fun table operation => (operation.apply table).2) table

theorem tableAfter_append (table : HAMHashTable α) (front back : List (TableOperation κ α)) :
    tableAfter table (front ++ back) = tableAfter (tableAfter table front) back :=
  List.foldl_append

/-- The data that operations lose one after the other. -/
def leakedBy (table : HAMHashTable α) : List (TableOperation κ α) → List α
  | [] => []
  | operation :: operations => operation.lost table ++ leakedBy (operation.apply table).2 operations

theorem leakedBy_append (table : HAMHashTable α) (front back : List (TableOperation κ α)) :
    leakedBy table (front ++ back) =
      leakedBy table front ++ leakedBy (tableAfter table front) back := by
  induction front generalizing table with
  | nil => rfl
  | cons operation front ih =>
    rw [List.cons_append, leakedBy, leakedBy, ih, List.append_assoc]
    rfl

section Operations
variable [DecidableEq κ] [Fintype κ]

def TableOperation.run (state : TableState κ α) : TableOperation κ α → Option (ℤ × TableState κ α)
  | .add ptr key value => hamHashTableAdd state ptr key value
  | .remove key => hamHashTableRemove state key

/-- A new table, in a heap with the items of any other tables. -/
def tableSystem (rest : Heap κ (TableCell κ α)) : System (TableState κ α) (TableOperation κ α) where
  start := { heap := rest }
  enabled state operation := operation.fresh state.heap
  step state operation := (operation.run state).map Prod.snd

/-- A table in memory is the table of lists. -/
structure Refines (state : TableState κ α) (table : HAMHashTable α) : Prop where
  lookup : ∀ key, hamHashTableLookup state key = some (Library.hamHashTableLookup table key (-1))
  size : state.count = hamHashTableGetSize table
  operation : ∀ operation : TableOperation κ α, operation.fresh state.heap = true →
    (operation.run state).map Prod.fst = some (operation.apply table).1

end Operations

/-- What is behind the end of a table: all data was freed or is lost, and all memory but that of the
lost items is as it was before the table. -/
structure Destroyed (rest : Heap κ (TableCell κ α)) (added leaked : List α)
    (final : TableState κ α) : Prop where
  ledger : added.Perm (final.freed ++ leaked)
  memory : ∃ lost : List κ, lost.Nodup ∧ lost.length = leaked.length ∧
    (∀ k ∈ lost, rest k = none ∧ final.heap k ≠ none) ∧ ∀ k, k ∉ lost → final.heap k = rest k

/-! ## The items in the memory -/

/-- The items of all buckets. -/
def owned (chains : Fin hashLen → List (κ × HAMHashTableItem α)) :
    List (κ × HAMHashTableItem α) :=
  (List.finRange hashLen).flatMap chains

@[simp] theorem owned_nil : owned (fun _ => ([] : List (κ × HAMHashTableItem α))) = [] :=
  List.flatMap_eq_nil_iff.mpr fun _ _ => rfl

/-- The items of one bucket, and the others. -/
theorem owned_update (chains : Fin hashLen → List (κ × HAMHashTableItem α)) (hash : Fin hashLen) :
    ∃ others, (∀ chain, (owned (Function.update chains hash chain)).Perm (chain ++ others)) ∧
      ∀ other, other ≠ hash → chains other ⊆ others := by
  obtain ⟨front, back, hsplit⟩ := List.append_of_mem (List.mem_finRange hash)
  have hnodup := List.nodup_finRange hashLen
  rw [hsplit, List.nodup_middle, List.nodup_cons] at hnodup
  have hkept (chain : List (κ × HAMHashTableItem α)) {hashes : List (Fin hashLen)}
      (h : hash ∉ hashes) : hashes.flatMap (Function.update chains hash chain) =
        hashes.flatMap chains := by
    refine List.flatMap_congr fun other hother => Function.update_of_ne ?_ ..
    rintro rfl
    exact h hother
  rw [List.mem_append, not_or] at hnodup
  refine ⟨front.flatMap chains ++ back.flatMap chains, fun chain => ?_,
    fun other hne cell hcell => ?_⟩
  · rw [owned, hsplit, List.flatMap_append, List.flatMap_cons, hkept chain hnodup.1.1,
      hkept chain hnodup.1.2, Function.update_self, ← List.append_assoc, ← List.append_assoc]
    exact List.perm_append_comm.append_right _
  · rw [← List.flatMap_append]
    refine List.mem_flatMap.mpr ⟨other, ?_, hcell⟩
    have hmem := List.mem_finRange other
    rw [hsplit, List.mem_append, List.mem_cons] at hmem
    rw [List.mem_append]
    exact hmem.imp_right fun h => h.resolve_left hne

/-- A table in memory, with its chains and the items that it has lost. `rest` is what else is in
the heap, `added` the data that it was given so far, and `leaked` the data of the lost items. -/
structure Holds (rest : Heap κ (TableCell κ α)) (added leaked : List α) (table : HAMHashTable α)
    (state : TableState κ α) (chains : Fin hashLen → List (κ × HAMHashTableItem α))
    (lost : List (κ × HAMHashTableItem α)) : Prop where
  chain : ∀ hash, Chain state.heap (state.items hash) (chains hash)
  items : ∀ hash, (chains hash).map Prod.snd = table.items hash
  count : state.count = table.count
  nodup : ((owned chains ++ lost).map Prod.fst).Nodup
  lost_cell : ∀ cell ∈ lost, (state.heap cell.1).map TableCell.item = some cell.2
  leaked : lost.map (·.2.data) = leaked
  rest_free : ∀ k ∈ (owned chains ++ lost).map Prod.fst, rest k = none
  frame : ∀ k, k ∉ (owned chains ++ lost).map Prod.fst → state.heap k = rest k
  ledger : added.Perm (state.freed ++ (owned chains ++ lost).map (·.2.data))

variable {rest heap' : Heap κ (TableCell κ α)} {added leaked : List α} {table : HAMHashTable α}
  {state : TableState κ α} {chains : Fin hashLen → List (κ × HAMHashTableItem α)}
  {lost cells' : List (κ × HAMHashTableItem α)} {hash : Fin hashLen} {head' : Option κ}
  {key : Bytes} {k : κ}

theorem Holds.allocated (h : Holds rest added leaked table state chains lost)
    (hk : k ∈ (owned chains ++ lost).map Prod.fst) : state.heap k ≠ none := by
  rw [List.map_append, List.mem_append] at hk
  intro hnone
  rcases hk with hk | hk
  · obtain ⟨cell, hcell, rfl⟩ := List.mem_map.mp hk
    obtain ⟨hash, -, hcell⟩ := List.mem_flatMap.mp hcell
    exact (h.chain hash).ne_fresh hnone (List.mem_map_of_mem hcell)
  · obtain ⟨cell, hcell, rfl⟩ := List.mem_map.mp hk
    have hitem := h.lost_cell cell hcell
    rw [hnone] at hitem
    cases hitem

/-- What there was or is new is still there, or lost, or gone. -/
theorem perm_exchange {ι : Type*} {before after old others cells new gone lost' : List ι}
    (lost : List ι) (hbefore : before.Perm (old ++ others)) (hafter : after.Perm (cells ++ others))
    (hperm : (cells ++ (gone ++ lost')).Perm (new ++ old)) :
    ((after ++ (lost ++ lost')) ++ gone).Perm (new ++ (before ++ lost)) := by
  rw [← Multiset.coe_eq_coe] at hbefore hafter hperm ⊢
  simp only [← Multiset.coe_add] at hbefore hafter hperm ⊢
  calc (after : Multiset ι) + (lost + lost') + gone
      = (cells + (gone + lost')) + (others + lost) := by
        rw [hafter]
        abel
    _ = new + (before + lost) := by
        rw [hperm, hbefore]
        abel

section Change
variable [DecidableEq κ]

/-- One chain is changed: some items are new, some are freed, some get lost, and all other memory
stays as it is. -/
theorem Holds.change (h : Holds rest added leaked table state chains lost)
    (new gone lost' : List (κ × HAMHashTableItem α)) (count' : ℕ)
    (hperm : (cells' ++ (gone ++ lost')).Perm (new ++ chains hash))
    (hchain : Chain heap' head' cells') (hnew : ∀ cell ∈ new, state.heap cell.1 = none)
    (hnodup : (new.map Prod.fst).Nodup) (hgone : ∀ cell ∈ gone, heap' cell.1 = none)
    (hlost : ∀ cell ∈ lost', (heap' cell.1).map TableCell.item = some cell.2)
    (hsame : ∀ j, j ∉ (new ++ chains hash).map Prod.fst → heap' j = state.heap j) :
    Holds rest (added ++ new.map (·.2.data)) (leaked ++ lost'.map (·.2.data))
      { items := Function.update table.items hash (cells'.map Prod.snd), count := count' }
      { heap := heap', items := Function.update state.items hash head', count := count'
        freed := state.freed ++ gone.map (·.2.data) }
      (Function.update chains hash cells') (lost ++ lost') := by
  obtain ⟨others, howned, hothers⟩ := owned_update chains hash
  have hold := howned (chains hash)
  rw [Function.update_eq_self] at hold
  -- what was there or is new, bucket by bucket and behind the change
  have htotal : (new ++ (owned chains ++ lost)).Perm
      ((new ++ chains hash) ++ (others ++ lost)) := by
    rw [List.append_assoc, ← List.append_assoc (chains hash)]
    exact (hold.append_right lost).append_left new
  have hafter := perm_exchange lost hold (howned cells') hperm
  have hfresh : ((new ++ (owned chains ++ lost)).map Prod.fst).Nodup := by
    rw [List.map_append]
    refine List.nodup_append.mpr ⟨hnodup, h.nodup, fun k hk j hj => ?_⟩
    rintro rfl
    obtain ⟨cell, hcell, rfl⟩ := List.mem_map.mp hk
    exact h.allocated hj (hnew cell hcell)
  have hdisjoint {cell : κ × HAMHashTableItem α} (hcell : cell ∈ others ++ lost) :
      heap' cell.1 = state.heap cell.1 := by
    have hparted := (htotal.map Prod.fst).nodup_iff.mp hfresh
    rw [List.map_append] at hparted
    exact hsame _ fun hmem =>
      (List.nodup_append.mp hparted).2.2 _ hmem _ (List.mem_map_of_mem hcell) rfl
  have hrest : ∀ k ∈ (new ++ (owned chains ++ lost)).map Prod.fst, rest k = none := by
    intro k hk
    rw [List.map_append, List.mem_append] at hk
    by_cases hmem : k ∈ (owned chains ++ lost).map Prod.fst
    · exact h.rest_free k hmem
    · obtain ⟨cell, hcell, rfl⟩ := List.mem_map.mp (hk.resolve_right hmem)
      rw [← h.frame _ hmem, hnew cell hcell]
  refine ⟨fun other => ?_, fun other => ?_, rfl, ?_, fun cell hcell => ?_, ?_, fun k hk => ?_,
    fun k hk => ?_, ?_⟩
  · by_cases hother : other = hash
    · subst hother
      simpa only [Function.update_self] using hchain
    · simp only [Function.update_of_ne hother]
      refine (h.chain other).congr fun j hj => ?_
      obtain ⟨cell, hcell, rfl⟩ := List.mem_map.mp hj
      exact hdisjoint (List.mem_append_left _ (hothers other hother hcell))
  · by_cases hother : other = hash
    · subst hother
      simp only [Function.update_self]
    · simp only [Function.update_of_ne hother]
      exact h.items other
  · have hparted := (hafter.map Prod.fst).nodup_iff.mpr hfresh
    rw [List.map_append] at hparted
    exact (List.nodup_append.mp hparted).1
  · rcases List.mem_append.mp hcell with hcell | hcell
    · have hitem := h.lost_cell cell hcell
      rw [← hdisjoint (List.mem_append_right _ hcell)] at hitem
      exact hitem
    · exact hlost cell hcell
  · rw [List.map_append, h.leaked]
  · refine hrest k ((hafter.map Prod.fst).mem_iff.mp ?_)
    rw [List.map_append]
    exact List.mem_append_left _ hk
  · by_cases hmem : k ∈ (new ++ (owned chains ++ lost)).map Prod.fst
    · have hk' := (hafter.map Prod.fst).mem_iff.mpr hmem
      rw [List.map_append, List.mem_append] at hk'
      obtain ⟨cell, hcell, rfl⟩ := List.mem_map.mp (hk'.resolve_left hk)
      rw [hrest _ hmem]
      exact hgone cell hcell
    · have hbucket : k ∉ (new ++ chains hash).map Prod.fst := fun hin => hmem <| by
        rw [(htotal.map Prod.fst).mem_iff, List.map_append]
        exact List.mem_append_left _ hin
      rw [List.map_append, List.mem_append, not_or] at hmem
      exact (hsame k hbucket).trans (h.frame k hmem.2)
  · have hdata := hafter.map (·.2.data)
    have hledger := h.ledger
    rw [← Multiset.coe_eq_coe] at hdata hledger ⊢
    simp only [List.map_append, ← Multiset.coe_add] at hdata hledger ⊢
    rw [hledger, add_assoc, add_comm _ (new.map (·.2.data) : Multiset α), ← hdata]
    abel

end Change

/-! ## The operations -/

/-- A key is in no item of its bucket, or the chain is parted by the first item that has it. -/
theorem Holds.bucket (h : Holds rest added leaked table state chains lost) (key : Bytes) :
    cstr key ∉ (table.items (hamHashTableDoHash key (-1))).map (·.key) ∨
      ∃ front k item back, chains (hamHashTableDoHash key (-1)) = front ++ (k, item) :: back ∧
        item.key = cstr key ∧ cstr key ∉ (front.map Prod.snd).map (·.key) := by
  refine or_iff_not_imp_left.mpr fun hmem => ?_
  rw [not_not, ← h.items, List.map_map] at hmem
  obtain ⟨front, back, hsplit, hfront⟩ := List.eq_append_cons_of_mem hmem
  obtain ⟨before, behind, hchain, rfl, hbehind⟩ := List.map_eq_append_iff.mp hsplit
  obtain ⟨⟨k, item⟩, back, rfl, hkey, -⟩ := List.map_eq_cons_iff.mp hbehind
  exact ⟨before, k, item, back, hchain, hkey, by rwa [List.map_map]⟩

theorem Holds.lookup [Fintype κ] (h : Holds rest added leaked table state chains lost)
    (key : Bytes) :
    hamHashTableLookup state key = some (Library.hamHashTableLookup table key (-1)) := by
  have hchain := h.chain (hamHashTableDoHash key (-1))
  have hfind := hchain.find (cstr key) hchain.fuel
  rw [hamHashTableLookup_eq, KeyedList.find, ← h.items, List.find?_map, Function.comp_def]
  cases hfound : (chains (hamHashTableDoHash key (-1))).find? fun cell => cell.2.key = cstr key with
  | none =>
    rw [hfound] at hfind
    simp [hamHashTableLookup, hfind]
  | some cell =>
    rw [hfound] at hfind
    have hdata := hchain.data cell (List.mem_of_find?_eq_some hfound)
    obtain ⟨c, hc, hitem⟩ := Option.map_eq_some_iff.mp hdata
    simp [hamHashTableLookup, hfind, hc, ← hitem, TableCell.item]

section Steps
variable [DecidableEq κ]

theorem hamHashTableItemDestroy_eq (state : TableState κ α) {item : HAMHashTableItem α}
    (h : (state.heap k).map TableCell.item = some item) : hamHashTableItemDestroy state k =
      some { state with
        heap := Function.update state.heap k none
        freed := state.freed ++ [item.data] } := by
  obtain ⟨cell, hcell, rfl⟩ := Option.map_eq_some_iff.mp h
  simp [hamHashTableItemDestroy, Heap.free_some hcell, hcell, TableCell.item]

variable [Fintype κ]

/-- An add replaces an item if and only if the key is behind the first item of the chain. -/
theorem replaced_count {items items' : List (HAMHashTableItem α)} {item : HAMHashTableItem α}
    {n : ℕ} (hitems : items' = putBehindFirst item items)
    (hlength : items'.length + n = items.length + 1) :
    n = if item.key ∈ items.tail.map (·.key) then 1 else 0 := by
  have hput (rest : List (HAMHashTableItem α)) : (KeyedList.put (·.key) item rest).length =
      if item.key ∈ rest.map (·.key) then rest.length else rest.length + 1 := by
    have hchain := length_replaceOrAppend item rest
    rw [replaceOrAppend_eq] at hchain
    simpa only [decide_eq_true_eq, ite_not] using hchain
  subst hitems
  cases items with
  | nil => simp_all [putBehindFirst]
  | cons first rest =>
    have hrest := hput rest
    rw [putBehindFirst, List.length_cons, List.length_cons] at hlength
    rw [List.tail_cons]
    split_ifs at hrest ⊢ <;> omega

theorem Holds.add (h : Holds rest added leaked table state chains lost)
    (hk : state.heap k = none) (key : Bytes) (value : α) : ∃ state' chains',
      hamHashTableAdd state (some k) key value = some (0, state') ∧
      Holds rest (added ++ [value]) leaked (Library.hamHashTableAdd table key (-1) value) state'
        chains' lost := by
  obtain ⟨heap', head', cells', replaced, hlink, hchain, hlength, hitems, hperm, hdata, hsame⟩ :=
    (h.chain (hamHashTableDoHash key (-1))).link hk (cstr key) value
  rw [h.items] at hitems
  have hcounted : replaced.length =
      if cstr key ∈ (table.items (hamHashTableDoHash key (-1))).tail.map (·.key) then 1 else 0 := by
    refine replaced_count hitems ?_
    rw [← h.items, List.length_map, List.length_map, ← List.length_append, hperm.length_eq,
      List.length_cons]
  have htable : Library.hamHashTableAdd table key (-1) value =
      { items := Function.update table.items (hamHashTableDoHash key (-1)) (cells'.map Prod.snd)
        count := state.count + (1 - replaced.length) } := by
    have hadded := hamHashTableAdd_items table key value
    have hcount := hamHashTableAdd_count table key value
    rw [← hitems] at hadded
    generalize Library.hamHashTableAdd table key (-1) value = result at hadded hcount ⊢
    obtain ⟨items, count⟩ := result
    obtain rfl := hadded
    rw [HAMHashTable.mk.injEq, h.count, hcounted]
    refine ⟨rfl, hcount.trans ?_⟩
    split_ifs <;> rfl
  have hnodup : ((cells' ++ replaced).map Prod.fst).Nodup :=
    (hperm.map Prod.fst).nodup_iff.mpr
      (List.nodup_cons.mpr ⟨(h.chain _).ne_fresh hk, (h.chain _).nodup⟩)
  have hkept : ∀ j, j ∉ (((k, ⟨cstr key, value⟩) : κ × HAMHashTableItem α) ::
      chains (hamHashTableDoHash key (-1))).map Prod.fst → heap' j = state.heap j := by
    intro j hj
    rw [List.map_cons, List.mem_cons, not_or] at hj
    exact hsame j hj.1 hj.2
  have hnew : ∀ cell ∈ [((k, ⟨cstr key, value⟩) : κ × HAMHashTableItem α)],
      state.heap cell.1 = none := by simpa using hk
  rw [htable]
  rcases replaced with _ | ⟨old, _ | ⟨_, _⟩⟩
  · have hchanged := h.change [(k, ⟨cstr key, value⟩)] [] [] (state.count + 1) hperm hchain hnew
      (by simp) (by simp) (by simp) hkept
    simp only [List.map_nil, List.append_nil, List.map_singleton] at hchanged
    refine ⟨_, _, ?_, hchanged⟩
    simp [hamHashTableAdd, hlink]
  · rw [List.map_append, List.map_singleton] at hnodup
    have hold : old.1 ∉ cells'.map Prod.fst := fun hmem =>
      (List.nodup_append.mp hnodup).2.2 _ hmem _ (List.mem_singleton_self _) rfl
    have hfreed {j : κ} (hj : j ≠ old.1) : Function.update heap' old.1 none j = heap' j :=
      Function.update_of_ne hj ..
    have hleft : Chain (Function.update heap' old.1 none) head' cells' :=
      hchain.congr fun j hj => hfreed fun heq => hold (heq ▸ hj)
    have hchanged := h.change [(k, ⟨cstr key, value⟩)] [old] [] state.count hperm hleft hnew
      (by simp) (by simp) (by simp) fun j hj => (hfreed ?_).trans (hkept j hj)
    · simp only [List.map_nil, List.append_nil, List.map_singleton] at hchanged
      refine ⟨_, _, ?_, hchanged⟩
      have hdestroyed := hamHashTableItemDestroy_eq { state with
        heap := heap', items := Function.update state.items (hamHashTableDoHash key (-1)) head' }
        (hdata old (List.mem_singleton_self _))
      simp [hamHashTableAdd, hlink, hdestroyed]
    · rintro rfl
      refine hj ((hperm.map Prod.fst).mem_iff.mp ?_)
      simp
  · simp at hlength

theorem Holds.remove (h : Holds rest added leaked table state chains lost) (key : Bytes) :
    ∃ state' chains' lost',
      hamHashTableRemove state key =
        some ((Library.hamHashTableRemove table key (-1)).1, state') ∧
      Holds rest added (leaked ++ (lostItems (cstr key)
        (table.items (hamHashTableDoHash key (-1)))).map (·.data))
        (Library.hamHashTableRemove table key (-1)).2 state' chains' lost' := by
  rcases h.bucket key with habsent | ⟨front, k, item, back, hsplit, hkey, hfront⟩
  · have hunlink : unlinkItem state.heap (state.items (hamHashTableDoHash key (-1))) (cstr key) =
        some none := by
      refine (h.chain _).unlink_absent ?_
      rw [h.items]
      exact habsent
    refine ⟨state, chains, lost, ?_, ?_⟩
    · simp [hamHashTableRemove, hunlink, hamHashTableRemove_absent habsent]
    · rw [hamHashTableRemove_absent habsent, lostItems_of_notMem habsent]
      simpa using h
  · have hitems := h.items (hamHashTableDoHash key (-1))
    have hchain := h.chain (hamHashTableDoHash key (-1))
    rw [hsplit] at hitems hchain
    obtain ⟨heap', head', stay, lost', rfl, hunlink, hleft, hkept, hlost, hdata, hsame⟩ :=
      hchain.unlink hkey hfront
    rw [hitems] at hkept hlost
    have hparted : table.items (hamHashTableDoHash key (-1)) =
        (stay ++ lost').map Prod.snd ++ item :: back.map Prod.snd := by
      rw [← hitems]
      simp
    have hremoved := hamHashTableRemove_present hparted hkey hfront
    rw [← hparted, List.length_map] at hremoved
    rw [← hkept] at hremoved
    have hperm : (stay ++ back ++ ([(k, item)] ++ lost')).Perm
        ([] ++ chains (hamHashTableDoHash key (-1))) := by
      rw [hsplit, ← Multiset.coe_eq_coe]
      simp only [← Multiset.coe_add, ← Multiset.cons_coe, ← Multiset.singleton_add,
        List.nil_append, Multiset.coe_nil]
      abel
    have hnodup := hchain.nodup
    rw [List.map_append, List.map_cons, List.nodup_middle, List.nodup_cons, ← List.map_append]
      at hnodup
    have hne {cell : κ × HAMHashTableItem α} (hcell : cell ∈ (stay ++ lost') ++ back) :
        cell.1 ≠ k := by
      rintro rfl
      have hmem : cell.1 ∈ ((stay ++ lost') ++ back).map Prod.fst := List.mem_map_of_mem hcell
      exact hnodup.1 hmem
    have hfreed {j : κ} (hj : j ≠ k) : Function.update heap' k none j = heap' j :=
      Function.update_of_ne hj ..
    have hchain' : Chain (Function.update heap' k none) head' (stay ++ back) := by
      refine hleft.congr fun j hj => ?_
      obtain ⟨cell, hcell, rfl⟩ := List.mem_map.mp hj
      refine hfreed (hne ?_)
      rw [List.append_assoc, List.mem_append]
      exact (List.mem_append.mp hcell).imp_right (List.mem_append_right _)
    have hstill : ∀ cell ∈ lost', (Function.update heap' k none cell.1).map TableCell.item =
        some cell.2 := by
      intro cell hcell
      have hmem : cell ∈ stay ++ lost' := List.mem_append_right _ hcell
      rw [hfreed (hne (List.mem_append_left _ hmem)), hdata]
      exact hchain.data cell (List.mem_append_left _ hmem)
    have houter : ∀ j, j ∉ ([] ++ chains (hamHashTableDoHash key (-1))).map Prod.fst →
        Function.update heap' k none j = state.heap j := by
      intro j hj
      rw [List.nil_append, hsplit] at hj
      rw [hfreed, hsame j hj]
      rintro rfl
      exact hj (by simp)
    have hchanged := h.change [] [(k, item)] lost' (state.count - 1) hperm hchain' (by simp)
      (by simp) (by simp) hstill houter
    simp only [List.map_nil, List.append_nil, List.map_singleton] at hchanged
    have hdestroyed := hamHashTableItemDestroy_eq { state with
      heap := heap', items := Function.update state.items (hamHashTableDoHash key (-1)) head' }
      ((hdata k).trans (hchain.data (k, item) (by simp)))
    rw [hremoved, ← hlost, List.map_map, ← h.count]
    refine ⟨_, _, _, ?_, hchanged⟩
    simp [hamHashTableRemove, hunlink, hdestroyed]

end Steps

/-! ## The end of a table -/

section End
variable [DecidableEq κ]

/-- One bucket is emptied, item by item. -/
theorem Holds.destroyChain (h : Holds rest added leaked table state chains lost)
    (hash : Fin hashLen) {fuel : ℕ} (hfuel : (chains hash).length < fuel) :
    ∃ table' state', TableHeap.destroyChain hash fuel state = some state' ∧
      Holds rest added leaked table' state' (Function.update chains hash []) lost := by
  obtain ⟨fuel, rfl⟩ := Nat.exists_eq_succ_of_ne_zero (Nat.ne_zero_of_lt hfuel)
  generalize hcells : chains hash = cells at hfuel
  induction cells generalizing chains table state fuel with
  | nil =>
    have hhead : state.items hash = none := by
      have hpath := (h.chain hash).path
      rw [hcells] at hpath
      exact hpath
    refine ⟨table, state, by simp [TableHeap.destroyChain, hhead], ?_⟩
    rw [← hcells, Function.update_eq_self]
    exact h
  | cons first cells ih =>
    obtain ⟨fuel, rfl⟩ := Nat.exists_eq_succ_of_ne_zero
      (Nat.ne_zero_of_lt (Nat.lt_of_succ_lt_succ hfuel))
    have hchain := h.chain hash
    rw [hcells] at hchain
    obtain ⟨hhead, hfirst⟩ := hchain.first_cell
    have hnodup := hchain.nodup
    rw [List.map_cons, List.nodup_cons] at hnodup
    have hleft : Chain (Function.update state.heap first.1 none) (cells.head?.map Prod.fst)
        cells := by
      refine hchain.tail.congr fun j hj => Function.update_of_ne ?_ ..
      rintro rfl
      exact hnodup.1 hj
    have houter : ∀ j, j ∉ ([] ++ chains hash).map Prod.fst →
        Function.update state.heap first.1 none j = state.heap j := by
      intro j hj
      refine Function.update_of_ne ?_ ..
      rintro rfl
      exact hj (by simp [hcells])
    have hperm : (cells ++ ([first] ++ [])).Perm ([] ++ chains hash) := by
      rw [hcells]
      exact List.perm_append_singleton first cells
    have hchanged := h.change [] [first] [] state.count hperm hleft (by simp) (by simp) (by simp)
      (by simp) houter
    simp only [List.map_nil, List.append_nil, List.map_singleton] at hchanged
    obtain ⟨table', state', hdestroyed, hempty⟩ := ih hchanged fuel (Function.update_self ..)
      (Nat.lt_of_succ_lt_succ hfuel)
    rw [Function.update_idem] at hempty
    refine ⟨table', state', ?_, hempty⟩
    have hitem : (state.heap first.1).map TableCell.item = some first.2 := by
      rw [hfirst]
      rfl
    have hfree := hamHashTableItemDestroy_eq { state with
      items := Function.update state.items hash (cells.head?.map Prod.fst) } hitem
    rw [TableHeap.destroyChain]
    simp only [hhead, hfirst, hfree, Option.bind_eq_bind, Option.bind_some]
    exact hdestroyed

variable [Fintype κ]

theorem Holds.destroyChains (h : Holds rest added leaked table state chains lost)
    (hashes : List (Fin hashLen)) : ∃ table' state' chains',
      hashes.foldlM (fun state hash => TableHeap.destroyChain hash (turns κ) state) state =
        some state' ∧
      Holds rest added leaked table' state' chains' lost ∧
      (∀ hash ∈ hashes, chains' hash = []) ∧ ∀ hash, chains hash = [] → chains' hash = [] := by
  induction hashes generalizing table state chains with
  | nil => exact ⟨table, state, chains, rfl, h, by simp, fun _ => id⟩
  | cons hash hashes ih =>
    obtain ⟨table', next, hnext, hempty⟩ := h.destroyChain hash (h.chain hash).fuel
    obtain ⟨table'', state', chains', hfold, hholds, hrest, hkept⟩ := ih hempty
    refine ⟨table'', state', chains', ?_, hholds, fun other hother => ?_, fun other hother =>
      hkept other ?_⟩
    · rw [List.foldlM_cons, hnext]
      exact hfold
    · rcases List.mem_cons.mp hother with rfl | hother
      · exact hkept other (Function.update_self ..)
      · exact hrest other hother
    · by_cases hhash : other = hash
      · subst hhash
        exact Function.update_self ..
      · rw [Function.update_of_ne hhash, hother]

theorem Holds.destroy (h : Holds rest added leaked table state chains lost) :
    ∃ final, hamHashTableDestroy state = some final ∧ Destroyed rest added leaked final := by
  obtain ⟨table', final, chains', hfold, hholds, hempty, -⟩ :=
    h.destroyChains (List.finRange hashLen)
  have howned : owned chains' = [] :=
    List.flatMap_eq_nil_iff.mpr fun hash _ => hempty hash (List.mem_finRange hash)
  have hlost : owned chains' ++ lost = lost := by rw [howned, List.nil_append]
  have hledger := hholds.ledger
  rw [hlost, hholds.leaked] at hledger
  refine ⟨final, hfold, hledger, lost.map Prod.fst, ?_, ?_, fun k hk => ?_, fun k hk => ?_⟩
  · exact hlost ▸ hholds.nodup
  · rw [← hholds.leaked, List.length_map, List.length_map]
  · rw [← hlost] at hk
    exact ⟨hholds.rest_free k hk, hholds.allocated hk⟩
  · rw [← hlost] at hk
    exact hholds.frame k hk

end End

/-! ## Whole runs -/

section Runs
variable [DecidableEq κ] [Fintype κ]

/-- An operation succeeds, and does to both tables the same. -/
theorem Holds.operation (h : Holds rest added leaked table state chains lost)
    {operation : TableOperation κ α} (hfresh : operation.fresh state.heap = true) :
    ∃ state' chains' lost', operation.run state = some ((operation.apply table).1, state') ∧
      Holds rest (added ++ operation.added) (leaked ++ operation.lost table)
        (operation.apply table).2 state' chains' lost' := by
  match operation with
  | .add none key value =>
    exact ⟨state, chains, lost, rfl,
      by simpa [TableOperation.added, TableOperation.lost, TableOperation.apply] using h⟩
  | .add (some k) key value =>
    have hk : state.heap k = none := by simpa [TableOperation.fresh] using hfresh
    obtain ⟨state', chains', hadded, hholds⟩ := h.add hk key value
    exact ⟨state', chains', lost, hadded,
      by simpa [TableOperation.added, TableOperation.lost, TableOperation.apply] using hholds⟩
  | .remove key =>
    obtain ⟨state', chains', lost', hremoved, hholds⟩ := h.remove key
    exact ⟨state', chains', lost', hremoved,
      by simpa [TableOperation.added, TableOperation.lost, TableOperation.apply] using hholds⟩

theorem holds_start (rest : Heap κ (TableCell κ α)) :
    Holds rest [] [] {} (tableSystem rest).start (fun _ => []) [] where
  chain _ := ⟨rfl, by simp⟩
  items _ := rfl
  count := rfl
  nodup := by simp
  lost_cell := by simp
  leaked := rfl
  rest_free := by simp
  frame _ _ := rfl
  ledger := by simp [tableSystem]

theorem holds_run {guard : TableState κ α → TableOperation κ α → Bool}
    {operations : List (TableOperation κ α)} (h : (tableSystem rest).Run guard operations state) :
    ∃ chains lost, Holds rest (operations.flatMap TableOperation.added) (leakedBy {} operations)
      (tableAfter {} operations) state chains lost := by
  refine System.Run.invariant (I := fun past state => ∃ chains lost, Holds rest
    (past.flatMap TableOperation.added) (leakedBy {} past) (tableAfter {} past) state chains lost)
    ⟨_, _, holds_start rest⟩ ?_ h
  rintro past state operation next ⟨chains, lost, hholds⟩ hfresh - hstep
  obtain ⟨state', chains', lost', hrun, hnext⟩ := hholds.operation hfresh
  have hsame : state' = next := by
    have hrun' := congrArg (Option.map Prod.snd) hrun
    exact Option.some.inj (hrun'.symm.trans hstep)
  subst hsame
  refine ⟨chains', lost', ?_⟩
  rw [List.flatMap_append, leakedBy_append, tableAfter_append]
  simpa [leakedBy, tableAfter] using hnext

/-- In every run, no NULL pointer is followed and no item is freed twice; the table in memory is the
table of lists that its operations make. When it is destroyed, all data that it was given has been
freed once, but for what its removals have lost, and the memory of the lost items is all that is
left of it. -/
theorem table_run {operations : List (TableOperation κ α)}
    (h : (tableSystem rest).Run (fun _ _ => true) operations state) :
    Refines state (tableAfter {} operations) ∧ ∃ final,
      hamHashTableDestroy state = some final ∧
      Destroyed rest (operations.flatMap TableOperation.added) (leakedBy {} operations) final := by
  obtain ⟨chains, lost, hholds⟩ := holds_run h
  refine ⟨⟨hholds.lookup, hholds.count, fun operation hfresh => ?_⟩, hholds.destroy⟩
  obtain ⟨state', chains', lost', hrun, -⟩ := hholds.operation hfresh
  rw [hrun]
  rfl

end Runs

/-- Two keys of one bucket, the second of which takes the first with it, an allocation that fails,
and a key that is there again. -/
def sampleOperations : List (TableOperation Bool ℕ) :=
  [.add (some true) (bytes "Ao") 1, .add (some false) (bytes "B0") 2, .add none (bytes "B0") 3,
    .remove (bytes "B0"), .add (some false) (bytes "Ao") 4, .remove (bytes "B0")]

theorem table_run_sampleOperations : ∃ state : TableState Bool ℕ,
    Refines state (tableAfter {} sampleOperations) ∧ ∃ final,
      hamHashTableDestroy state = some final ∧
      Destroyed (fun _ => none) [1, 2, 4] [1] final := by
  have hexec : ((tableSystem fun _ => none).exec (fun _ _ => true) { heap := fun _ => none }
      sampleOperations).any (fun state => state.count = 2) = true := by decide
  obtain ⟨state, hrun, -⟩ := System.exists_run_of_exec hexec
  exact ⟨state, table_run hrun⟩

/-! ## Tables without leaks -/

theorem leakedBy_eq_nil_iff (table : HAMHashTable α) (operations : List (TableOperation κ α)) :
    leakedBy table operations = [] ↔ ∀ front operation back,
      operations = front ++ operation :: back → operation.lost (tableAfter table front) = [] := by
  induction operations generalizing table with
  | nil => simp [leakedBy]
  | cons first operations ih =>
    rw [leakedBy, List.append_eq_nil_iff, ih]
    constructor
    · rintro ⟨hfirst, hrest⟩ front operation back hsplit
      cases front with
      | nil =>
        obtain rfl := (List.cons.inj hsplit).1
        exact hfirst
      | cons other front =>
        obtain ⟨rfl, hbehind⟩ := List.cons.inj hsplit
        exact hrest front operation back hbehind
    · intro h
      exact ⟨h [] first operations rfl, fun front operation back hsplit =>
        h (first :: front) operation back (congrArg (first :: ·) hsplit)⟩

/-- A removal loses nothing if and only if it takes out its item alone. -/
theorem lost_remove_iff (h : WellFormed table) (key : Bytes) :
    (TableOperation.remove key : TableOperation κ α).lost table = [] ↔ UnlinksAlone table key := by
  rw [TableOperation.lost, List.map_eq_nil_iff]
  rcases h.chain key with habsent | ⟨front, item, back, hitems, hkey, hfront, hback⟩
  · refine iff_of_true (lostItems_of_notMem habsent) fun front item back hitems hkey => ?_
    exact absurd (by simp [hitems, hkey]) habsent
  rw [unlinksAlone_iff hitems hkey hfront hback, hitems, lostItems_append hkey hfront]
  have hlength : item.keyLen = (cstr key).length := congrArg List.length hkey
  rcases List.eq_nil_or_concat front with rfl | ⟨front, before, rfl⟩
  · simp [trailing]
  rw [List.concat_eq_append] at *
  have hplace := trailing_concat (cstr key) 0 0 front before
  have hcases := trailing_cases (cstr key) 0 0 front
  rw [zero_add] at hplace hcases
  by_cases hbefore : before.keyLen = item.keyLen
  · -- `prev` is further in front, and the item just before gets lost
    rw [if_neg (by simp [hbefore, hlength])] at hplace
    refine iff_of_false ?_ ?_
    · rw [hplace]
      split_ifs with hzero
      · simp
      · have hlt := hcases.resolve_left hzero
        rw [List.drop_eq_nil_iff, List.length_append, List.length_singleton]
        omega
    · rintro (hnil | ⟨first, middle, before', hfronts, hne⟩)
      · simp at hnil
      · obtain rfl := (List.cons.inj (List.append_inj' hfronts rfl).2).1
        exact hne hbefore
  · rw [if_pos (by simpa [hlength] using hbefore)] at hplace
    rw [hplace]
    cases front with
    | nil =>
      refine iff_of_false (by simp) ?_
      rintro (hnil | ⟨first, middle, before', hfronts, -⟩)
      · simp at hnil
      · simpa using congrArg List.length hfronts
    | cons first middle =>
      refine iff_of_true ?_ (Or.inr ⟨first, middle, before, rfl, hbefore⟩)
      rw [if_neg (by simp), List.drop_eq_nil_iff]
      simp

theorem Destroyed.restored_iff {final : TableState κ α} (h : Destroyed rest added leaked final) :
    final.heap = rest ↔ leaked = [] := by
  obtain ⟨lost, -, hlength, hlost, hframe⟩ := h.memory
  constructor
  · intro hsame
    rw [← List.length_eq_zero_iff, ← hlength, List.length_eq_zero_iff,
      List.eq_nil_iff_forall_not_mem]
    intro k hk
    obtain ⟨hrest, hleft⟩ := hlost k hk
    exact hleft (hsame ▸ hrest)
  · rintro rfl
    obtain rfl := List.length_eq_zero_iff.mp hlength
    exact funext fun k => hframe k List.not_mem_nil

section Leaks
variable [DecidableEq κ] [Fintype κ]

/-- A key that is added is not in the table. -/
def addsNew (state : TableState κ α) : TableOperation κ α → Bool
  | .add _ key _ => (hamHashTableLookup state key).join.isNone
  | .remove _ => true

theorem wellFormed_run {operations : List (TableOperation κ α)}
    (h : (tableSystem rest).Run addsNew operations state) {front : List (TableOperation κ α)}
    (hfront : front <+: operations) : WellFormed (tableAfter ({} : HAMHashTable α) front) := by
  induction h generalizing front with
  | start =>
    rw [List.prefix_nil.mp hfront]
    exact wellFormed_new
  | @next past state next operation run enabled allowed step ih =>
    rcases List.prefix_concat_iff.mp hfront with rfl | hfront
    · obtain ⟨chains, lost, hholds⟩ := holds_run run
      have hwell := ih (List.prefix_refl past)
      rw [tableAfter_append]
      match operation, allowed with
      | .add none _ _, _ => exact hwell
      | .add (some k) key value, allowed =>
        rw [addsNew, hholds.lookup] at allowed
        exact hwell.add (by simpa using allowed) value
      | .remove key, _ => exact hwell.remove key
    · exact ih hfront

/-- In every run whose adds bring new keys, the memory behind the end of the table is the memory
from before it if and only if every removal took out its item alone. -/
theorem memory_restored_iff {operations : List (TableOperation κ α)}
    (h : (tableSystem rest).Run addsNew operations state) : ∃ final,
      hamHashTableDestroy state = some final ∧ (final.heap = rest ↔
        ∀ front key back, operations = front ++ .remove key :: back →
          UnlinksAlone (tableAfter ({} : HAMHashTable α) front) key) := by
  obtain ⟨chains, lost, hholds⟩ := holds_run h
  obtain ⟨final, hdestroy, hdestroyed⟩ := hholds.destroy
  refine ⟨final, hdestroy, ?_⟩
  rw [hdestroyed.restored_iff, leakedBy_eq_nil_iff]
  have hremove (front : List (TableOperation κ α)) (key : Bytes)
      (back : List (TableOperation κ α)) (hsplit : operations = front ++ .remove key :: back) :
      (TableOperation.remove key : TableOperation κ α).lost (tableAfter {} front) = [] ↔
        UnlinksAlone (tableAfter ({} : HAMHashTable α) front) key :=
    lost_remove_iff (wellFormed_run h ⟨_, hsplit.symm⟩) key
  constructor
  · intro hall front key back hsplit
    exact (hremove front key back hsplit).mp (hall front _ back hsplit)
  · intro hall front operation back hsplit
    cases operation with
    | add ptr key value => rfl
    | remove key => exact (hremove front key back hsplit).mpr (hall front key back hsplit)

end Leaks

/-- The second of two keys of one length in one bucket is removed. -/
def leakingOperations : List (TableOperation Bool ℕ) :=
  [.add (some true) (bytes "Ao") 1, .add (some false) (bytes "B0") 2, .remove (bytes "B0")]

theorem memory_restored_iff_leakingOperations : ∃ state final : TableState Bool ℕ,
    hamHashTableDestroy state = some final ∧ ((final.heap = fun _ => none) ↔
      ∀ front key back, leakingOperations = front ++ .remove key :: back →
        UnlinksAlone (tableAfter ({} : HAMHashTable ℕ) front) key) := by
  have hexec : ((tableSystem fun _ => none).exec addsNew { heap := fun _ => none }
      leakingOperations).any (fun state => state.count = 1) = true := by decide
  obtain ⟨state, hrun, -⟩ := System.exists_run_of_exec hexec
  exact ⟨state, memory_restored_iff hrun⟩

end Hamlog.Library.TableHeap
