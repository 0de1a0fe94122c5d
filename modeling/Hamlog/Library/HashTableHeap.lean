import Hamlog.Foundation.LinkedHeap
import Hamlog.Foundation.Runs
import Hamlog.Library.HashTableRemove

/-! # The hash table in memory

The items of a hash table are cells of a heap, and a bucket points to the first
one of its chain. Keys are strings, for which the functions are given the length
-1. The operations are translated assignment by assignment; a NULL pointer that
is followed, an item that is freed twice and a loop that does not end have no
result. They do to the chains what the operations on lists do, and all that is
not freed in the end are the items that removals have lost.
-/
namespace Hamlog.Library.TableHeap
open Foundation

/-- An item with the copy of its key. `κ` are the addresses. -/
structure TableCell (κ α : Type) where
  key : Bytes
  data : α
  next : Option κ

def TableCell.item {κ α : Type} (cell : TableCell κ α) : HAMHashTableItem α := ⟨cell.key, cell.data⟩

/-- A table with the heap that its items are in, and the data that its free function was given. -/
structure TableState (κ α : Type) where
  heap : Heap κ (TableCell κ α)
  items : Fin hashLen → Option κ := fun _ => none
  count : ℕ := 0
  freed : List α := []

variable {κ α : Type}

section Operations
variable [DecidableEq κ] [Fintype κ]

/-- No loop over a chain that ends makes more turns than there are addresses. -/
def turns (κ : Type) [Fintype κ] : ℕ := Fintype.card κ + 1

/-- `ham_hash_table_item_destroy`. -/
def hamHashTableItemDestroy (state : TableState κ α) (item : κ) : Option (TableState κ α) := do
  let cell ← state.heap item
  return { state with heap := ← state.heap.free (some item), freed := state.freed ++ [cell.data] }

/-- The loops of `ham_hash_table_add` from the item `tmp` on: the item to stand behind, and the one
with the same key that follows it. -/
def findToReplace (heap : Heap κ (TableCell κ α)) (key : Bytes) : ℕ → κ → Option (κ × Option κ)
  | 0, _ => none
  | fuel + 1, tmp => do
    match (← heap tmp).next with
    | none => return (tmp, none)
    | some next =>
      let other ← heap next
      if other.key.length ≠ key.length then findToReplace heap key fuel next
      else if other.key = key then return (tmp, some next)
      else findToReplace heap key fuel next

/-- A new item `k` is linked into the chain of a bucket. The item that it has replaced is not
destroyed yet. -/
def linkItem (heap : Heap κ (TableCell κ α)) (head : Option κ) (k : κ) (key : Bytes) (value : α) :
    Option (Heap κ (TableCell κ α) × Option κ × Option κ) :=
  let heap := heap.alloc k { key, data := value, next := none }
  match head with
  | none => some (heap, some k, none)
  | some first => do
    let (tmp, found) ← findToReplace heap key (turns κ) first
    let heap ← heap.modify (some tmp) fun cell => { cell with next := some k }
    match found with
    | none => return (heap, head, none)
    | some old =>
      let deleted ← heap old
      return (← heap.modify (some k) fun cell => { cell with next := deleted.next }, head, some old)

/-- `ptr` is the memory of the item; it is null if the item or its key get none. -/
def hamHashTableAdd (state : TableState κ α) (ptr : Option κ) (key : Bytes) (value : α) :
    Option (ℤ × TableState κ α) :=
  match ptr with
  | none => some (-1, state)
  | some k => do
    let hash := hamHashTableDoHash key (-1)
    let (heap, head, replaced) ← linkItem state.heap (state.items hash) k (cstr key) value
    let state := { state with heap, items := Function.update state.items hash head }
    match replaced with
    | none => return (0, { state with count := state.count + 1 })
    | some old => return (0, ← hamHashTableItemDestroy state old)

/-- The loops of `ham_hash_table_remove` with both of their pointers. -/
def findToRemove (heap : Heap κ (TableCell κ α)) (key : Bytes) :
    ℕ → κ → Option κ → Option (Option (κ × κ))
  | 0, _, _ => none
  | _ + 1, _, none => some none
  | fuel + 1, prev, some tmp => do
    let cell ← heap tmp
    if cell.key.length ≠ key.length then findToRemove heap key fuel tmp cell.next
    else if cell.key = key then return some (prev, tmp)
    else findToRemove heap key fuel prev cell.next

/-- The item of the key is taken out of a chain, and not yet destroyed. -/
def unlinkItem (heap : Heap κ (TableCell κ α)) (head : Option κ) (key : Bytes) :
    Option (Option (Heap κ (TableCell κ α) × Option κ × κ)) :=
  match head with
  | none => some none
  | some first => do
    match ← findToRemove heap key (turns κ) first head with
    | none => return none
    | some (prev, tmp) =>
      let cell ← heap tmp
      if prev = first then return some (heap, cell.next, tmp)
      else
        let heap ← heap.modify (some prev) fun before => { before with next := cell.next }
        return some (heap, head, tmp)

def hamHashTableRemove (state : TableState κ α) (key : Bytes) : Option (ℤ × TableState κ α) := do
  let hash := hamHashTableDoHash key (-1)
  match ← unlinkItem state.heap (state.items hash) (cstr key) with
  | none => return (-1, state)
  | some (heap, head, tmp) =>
    let state := { state with heap, items := Function.update state.items hash head }
    let state ← hamHashTableItemDestroy state tmp
    return (0, { state with count := state.count - 1 })

/-- The loops of `ham_hash_table_lookup`. -/
def hamHashTableLookup (state : TableState κ α) (key : Bytes) : Option (Option α) := do
  let found ← state.heap.find (·.next) (fun cell => cell.key = cstr key) (turns κ)
    (state.items (hamHashTableDoHash key (-1)))
  match found with
  | none => return none
  | some k => return some (← state.heap k).data

/-- The inner loop of `ham_hash_table_destroy`. -/
def destroyChain (hash : Fin hashLen) : ℕ → TableState κ α → Option (TableState κ α)
  | 0, _ => none
  | fuel + 1, state =>
    match state.items hash with
    | none => some state
    | some tmp => do
      let cell ← state.heap tmp
      let state := { state with items := Function.update state.items hash cell.next }
      destroyChain hash fuel (← hamHashTableItemDestroy state tmp)

def hamHashTableDestroy (state : TableState κ α) : Option (TableState κ α) :=
  (List.finRange hashLen).foldlM (fun state hash => destroyChain hash (turns κ) state) state

end Operations

/-! ## Chains -/

/-- The addresses of the items of a chain, and the items. -/
structure Chain (heap : Heap κ (TableCell κ α)) (head : Option κ)
    (cells : List (κ × HAMHashTableItem α)) : Prop where
  path : heap.Path (·.next) head (cells.map Prod.fst) none
  data : ∀ cell ∈ cells, (heap cell.1).map TableCell.item = some cell.2

variable {heap heap' : Heap κ (TableCell κ α)} {head : Option κ}
  {cells front back : List (κ × HAMHashTableItem α)} {k : κ} {key : Bytes} {value : α}

theorem Chain.nodup (h : Chain heap head cells) : (cells.map Prod.fst).Nodup := h.path.nodup

theorem Chain.congr (h : Chain heap head cells)
    (hsame : ∀ k ∈ cells.map Prod.fst, heap' k = heap k) : Chain heap' head cells where
  path := h.path.congr fun k hk => congrArg _ (hsame k hk)
  data cell hcell := (congrArg _ (hsame _ (List.mem_map_of_mem hcell))).trans (h.data cell hcell)

/-- The cell of the first item leads to the second one. -/
theorem Chain.first_cell {first : κ × HAMHashTableItem α} {rest : List (κ × HAMHashTableItem α)}
    (h : Chain heap head (first :: rest)) : head = some first.1 ∧ heap first.1 =
      some ⟨first.2.key, first.2.data, rest.head?.map Prod.fst⟩ := by
  obtain ⟨hhead, next, hnext, hrest⟩ := h.path
  have hdata := h.data first List.mem_cons_self
  have hstart : next = rest.head?.map Prod.fst := by rw [hrest.start, List.head?_map]
  obtain ⟨⟨key, data, link⟩, hcell, rfl⟩ := Option.map_eq_some_iff.mp hnext
  rw [hcell, Option.map_some, Option.some.injEq] at hdata
  refine ⟨hhead, hcell.trans ?_⟩
  rw [← hdata, ← hstart]
  rfl

theorem Chain.tail {first : κ × HAMHashTableItem α} {rest : List (κ × HAMHashTableItem α)}
    (h : Chain heap head (first :: rest)) : Chain heap (rest.head?.map Prod.fst) rest := by
  obtain ⟨-, next, -, hrest⟩ := h.path
  refine ⟨?_, fun cell hcell => h.data cell (List.mem_cons_of_mem _ hcell)⟩
  rw [← List.head?_map, ← hrest.start]
  exact hrest

theorem Chain.cons {next : Option κ} {item : HAMHashTableItem α}
    (hk : heap k = some ⟨item.key, item.data, next⟩) (h : Chain heap next cells) :
    Chain heap (some k) ((k, item) :: cells) := by
  refine ⟨⟨rfl, next, by rw [hk]; rfl, h.path⟩, List.forall_mem_cons.mpr ⟨?_, h.data⟩⟩
  rw [hk]
  rfl

theorem Chain.behind (h : Chain heap head (front ++ back)) : ∃ p, Chain heap p back := by
  induction front generalizing head with
  | nil => exact ⟨head, h⟩
  | cons first front ih => exact ih h.tail

theorem Chain.last_cell (h : Chain heap head (front ++ back)) (hne : front ≠ []) :
    heap (front.getLast hne).1 = some ⟨(front.getLast hne).2.key, (front.getLast hne).2.data,
      back.head?.map Prod.fst⟩ := by
  induction front generalizing head with
  | nil => exact absurd rfl hne
  | cons first front ih =>
    cases front with
    | nil => exact h.first_cell.2
    | cons next front => exact ih h.tail (List.cons_ne_nil _ _)

theorem Chain.apart (h : Chain heap head (front ++ back)) {cell other : κ × HAMHashTableItem α}
    (hcell : cell ∈ front) (hother : other ∈ back) : cell.1 ≠ other.1 := by
  have hnodup := h.nodup
  rw [List.map_append] at hnodup
  exact (List.nodup_append.mp hnodup).2.2 _ (List.mem_map_of_mem hcell) _
    (List.mem_map_of_mem hother)

theorem Chain.ne_last (h : Chain heap head (front ++ back)) (hne : front ≠ [])
    {cell : κ × HAMHashTableItem α} (hcell : cell ∈ front.dropLast) :
    cell.1 ≠ (front.getLast hne).1 := by
  rw [← List.dropLast_append_getLast hne, List.append_assoc] at h
  exact h.apart hcell (List.mem_append_left _ (List.mem_singleton_self _))

/-- Behind the last item that stays another chain begins. -/
theorem Chain.splice {behind : List (κ × HAMHashTableItem α)} {q : Option κ}
    (h : Chain heap head (front ++ back)) (hbehind : Chain heap' q behind)
    (hlast : ∀ cell ∈ front.getLast?, heap' cell.1 = some ⟨cell.2.key, cell.2.data, q⟩)
    (hsame : ∀ cell ∈ front.dropLast, heap' cell.1 = heap cell.1) :
    Chain heap' (if front = [] then q else head) (front ++ behind) := by
  induction front generalizing head with
  | nil => exact hbehind
  | cons first front ih =>
    obtain ⟨rfl, hfirst⟩ := h.first_cell
    rw [if_neg (List.cons_ne_nil _ _)]
    cases front with
    | nil => exact .cons (hlast first rfl) hbehind
    | cons next front =>
      have htail := ih h.tail (fun cell hcell => hlast cell hcell) fun cell hcell =>
        hsame cell (List.mem_cons_of_mem _ hcell)
      exact .cons ((hsame first List.mem_cons_self).trans hfirst) htail

theorem Chain.ne_fresh (h : Chain heap head cells) (hk : heap k = none) :
    k ∉ cells.map Prod.fst := by
  intro hmem
  obtain ⟨cell, hcell⟩ := h.path.allocated hmem
  exact absurd (hcell.symm.trans hk) (by simp)

section Steps

/-- The search stops behind the items with other keys. -/
theorem Chain.findToReplace {first : κ × HAMHashTableItem α}
    (h : Chain heap head (first :: (front ++ back))) (hfront : ∀ cell ∈ front, cell.2.key ≠ key)
    (hback : ∀ cell ∈ back.head?, cell.2.key = key) {fuel : ℕ} (hfuel : front.length < fuel) :
    TableHeap.findToReplace heap key fuel first.1 =
      some (((first :: front).getLast (List.cons_ne_nil _ _)).1, back.head?.map Prod.fst) := by
  induction front generalizing first head fuel with
  | nil =>
    obtain ⟨fuel, rfl⟩ := Nat.exists_eq_succ_of_ne_zero (Nat.ne_zero_of_lt hfuel)
    have hfirst := h.first_cell.2
    cases back with
    | nil => simp [TableHeap.findToReplace, hfirst]
    | cons next back =>
      have hnext := h.tail.first_cell.2
      have hkey : next.2.key = key := hback next rfl
      simp [TableHeap.findToReplace, hfirst, hnext, hkey]
  | cons next front ih =>
    obtain ⟨fuel, rfl⟩ := Nat.exists_eq_succ_of_ne_zero (Nat.ne_zero_of_lt hfuel)
    have hfirst := h.first_cell.2
    have hnext := h.tail.first_cell.2
    have hbehind := ih h.tail (fun cell hcell => hfront cell (List.mem_cons_of_mem _ hcell))
      (Nat.lt_of_succ_lt_succ hfuel)
    have hkey : next.2.key ≠ key := hfront next List.mem_cons_self
    rw [List.getLast_cons (List.cons_ne_nil _ _)]
    simp [TableHeap.findToReplace, hfirst, hnext, hkey, hbehind]

/-- The loops of the removal take the pointers for the places of the list. -/
theorem Chain.findToRemove {p : Option κ} (h : Chain heap p cells) (key : Bytes) {place : ℕ → κ}
    {tmp : ℕ} (hplace : cells.map Prod.fst = (List.range' tmp cells.length).map place) (prev : ℕ)
    {fuel : ℕ} (hfuel : cells.length < fuel) :
    TableHeap.findToRemove heap key fuel (place prev) p =
      some ((Library.findToRemove key prev tmp (cells.map Prod.snd)).map
        (Prod.map place place)) := by
  obtain ⟨fuel, rfl⟩ := Nat.exists_eq_succ_of_ne_zero (Nat.ne_zero_of_lt hfuel)
  induction cells generalizing p tmp prev fuel with
  | nil =>
    obtain rfl : p = none := h.path
    rfl
  | cons cell cells ih =>
    obtain ⟨fuel, rfl⟩ := Nat.exists_eq_succ_of_ne_zero
      (Nat.ne_zero_of_lt (Nat.lt_of_succ_lt_succ hfuel))
    obtain ⟨rfl, hcell⟩ := h.first_cell
    rw [List.length_cons, List.range'_succ, List.map_cons, List.map_cons, List.cons.injEq] at hplace
    have hrest (prev : ℕ) := ih h.tail hplace.2 prev fuel (Nat.lt_of_succ_lt_succ hfuel)
    rw [TableHeap.findToRemove, hcell, List.map_cons, Library.findToRemove]
    simp only [Option.bind_eq_bind, Option.bind_some, HAMHashTableItem.keyLen]
    rw [hplace.1, hrest, hrest]
    by_cases hlength : cell.2.key.length = key.length
    · by_cases hkey : cell.2.key = key <;> simp [hlength, hkey]
    · simp [hlength]

/-- The loops of the lookup find the first item with the key. -/
theorem Chain.find {p : Option κ} (h : Chain heap p cells) (key : Bytes) {fuel : ℕ}
    (hfuel : cells.length < fuel) : heap.find (·.next) (fun cell => cell.key = key) fuel p =
      some ((cells.find? fun cell => cell.2.key = key).map Prod.fst) := by
  obtain ⟨fuel, rfl⟩ := Nat.exists_eq_succ_of_ne_zero (Nat.ne_zero_of_lt hfuel)
  induction cells generalizing p fuel with
  | nil =>
    obtain rfl : p = none := h.path
    rfl
  | cons cell cells ih =>
    obtain ⟨fuel, rfl⟩ := Nat.exists_eq_succ_of_ne_zero
      (Nat.ne_zero_of_lt (Nat.lt_of_succ_lt_succ hfuel))
    obtain ⟨rfl, hcell⟩ := h.first_cell
    have hrest := ih h.tail fuel (Nat.lt_of_succ_lt_succ hfuel)
    by_cases hkey : cell.2.key = key
    · simp [Heap.find, hcell, hkey]
    · rw [Heap.find, hcell, Option.bind_some, if_neg (by simpa using hkey), hrest,
        List.find?_cons_of_neg (by simpa using hkey)]

theorem Chain.fuel [Fintype κ] (h : Chain heap head cells) : cells.length < turns κ := by
  have hlength := h.path.length_le
  rw [List.length_map] at hlength
  exact Nat.lt_succ_of_le hlength

theorem map_getD (ks : List κ) (k : κ) :
    ks = (List.range' 0 ks.length).map fun i => ks.getD i k := by
  refine List.ext_getElem (by simp) fun i hi _ => ?_
  simp [List.getD_eq_getElem?_getD, hi]

theorem getD_inj {ks : List κ} (h : ks.Nodup) {i j : ℕ} (hi : i < ks.length) (hj : j < ks.length)
    (heq : ks.getD i k = ks.getD j k) : i = j := by
  rw [List.getD_eq_getElem?_getD, List.getD_eq_getElem?_getD, List.getElem?_eq_getElem hi,
    List.getElem?_eq_getElem hj] at heq
  exact h.getElem_inj_iff.mp heq

/-- The search from the head of a bucket on. -/
theorem Chain.search [Fintype κ] {first : κ} (h : Chain heap (some first) cells) (key : Bytes) :
    let place := fun i => (cells.map Prod.fst).getD i first
    place 0 = first ∧ TableHeap.findToRemove heap key (turns κ) first (some first) =
      some ((Library.findToRemove key 0 0 (cells.map Prod.snd)).map (Prod.map place place)) := by
  have hfirst : (cells.map Prod.fst).getD 0 first = first := by
    cases cells with
    | nil => rfl
    | cons cell cells => exact (Option.some.inj h.first_cell.1).symm
  have hplace := map_getD (cells.map Prod.fst) first
  rw [List.length_map] at hplace
  have hfind := h.findToRemove key hplace 0 h.fuel
  simp only [hfirst] at hfind
  exact ⟨hfirst, hfind⟩

/-- The items in front of the first one with a key, if there is one. -/
theorem exists_split (cells : List (κ × HAMHashTableItem α)) (key : Bytes) : ∃ front back,
    cells = front ++ back ∧ (∀ cell ∈ front, cell.2.key ≠ key) ∧
      ∀ cell ∈ back.head?, cell.2.key = key := by
  let other := fun cell : κ × HAMHashTableItem α => decide (cell.2.key ≠ key)
  refine ⟨cells.takeWhile other, cells.dropWhile other, List.takeWhile_append_dropWhile.symm,
    fun cell hcell => ?_, fun cell hcell => ?_⟩
  · simpa [other] using List.mem_takeWhile_imp hcell
  · have hhead := List.head?_dropWhile_not other cells
    rw [Option.mem_def.mp hcell] at hhead
    simpa [other] using hhead

variable [DecidableEq κ]

/-- A new item behind the first ones, in the place of the next one if there is one. -/
structure Linked (heap heap' : Heap κ (TableCell κ α)) (k : κ) (item : HAMHashTableItem α)
    (before : κ × HAMHashTableItem α) (back : List (κ × HAMHashTableItem α)) : Prop where
  new_cell : heap' k = some ⟨item.key, item.data, back.tail.head?.map Prod.fst⟩
  before_cell : heap' before.1 = some ⟨before.2.key, before.2.data, some k⟩
  other_cells : ∀ j, j ≠ k → j ≠ before.1 → heap' j = heap j

/-- The assignments of `ham_hash_table_add` to a chain that has items. -/
theorem Chain.linked [Fintype κ] {first : κ × HAMHashTableItem α}
    (h : Chain heap head (first :: (front ++ back))) (hk : heap k = none)
    (hfront : ∀ cell ∈ front, cell.2.key ≠ key) (hback : ∀ cell ∈ back.head?, cell.2.key = key)
    (value : α) : ∃ heap', linkItem heap head k key value =
        some (heap', head, back.head?.map Prod.fst) ∧
      Linked heap heap' k ⟨key, value⟩ ((first :: front).getLast (List.cons_ne_nil _ _)) back := by
  have hfresh := h.ne_fresh hk
  have hfuel : front.length < turns κ := by
    have hlength := h.fuel
    simp only [List.length_cons, List.length_append] at hlength
    omega
  have hne : first :: front ≠ [] := List.cons_ne_nil _ _
  have hother {j : κ} (hj : j ≠ k) : heap.alloc k ⟨key, value, none⟩ j = heap j := by
    rw [Heap.alloc_apply, if_neg hj]
  have halloc : Chain (heap.alloc k ⟨key, value, none⟩) head (first :: front ++ back) :=
    h.congr fun j hj => hother fun heq => hfresh (heq ▸ hj)
  have hfound := halloc.findToReplace hfront hback hfuel
  have hcell := halloc.last_cell hne
  have hmem := List.getLast_mem hne
  have hhead := h.first_cell.1
  generalize (first :: front).getLast hne = before at hfound hcell hmem
  have hbefore : before.1 ≠ k := fun heq =>
    hfresh (heq ▸ List.mem_map_of_mem (List.mem_append_left back hmem))
  let linked := Function.update (heap.alloc k ⟨key, value, none⟩) before.1
    (some ⟨before.2.key, before.2.data, some k⟩)
  have hlinked : (heap.alloc k ⟨key, value, none⟩).modify (some before.1)
      (fun cell => { cell with next := some k }) = some linked := Heap.modify_some hcell _
  have hk' : linked k = some ⟨key, value, none⟩ := by
    simp only [linked]
    rw [Function.update_of_ne hbefore.symm, Heap.alloc_apply, if_pos rfl]
  have hbefore' : linked before.1 = some ⟨before.2.key, before.2.data, some k⟩ :=
    Function.update_self ..
  have hlinkedOther {j : κ} (hj : j ≠ k) (hne' : j ≠ before.1) : linked j = heap j :=
    (Function.update_of_ne hne' ..).trans (hother hj)
  cases back with
  | nil =>
    refine ⟨linked, ?_, hk', hbefore', fun j => hlinkedOther⟩
    simp [linkItem, hhead, hfound, hlinked]
  | cons old back =>
    have hsplit : Chain heap head ((first :: front) ++ old :: back) := h
    have hold : old.1 ≠ before.1 := (hsplit.apart hmem List.mem_cons_self).symm
    have hold' : old.1 ≠ k := by
      rintro rfl
      exact hfresh (by simp)
    have hdeleted : linked old.1 = some ⟨old.2.key, old.2.data, back.head?.map Prod.fst⟩ := by
      obtain ⟨p, hback⟩ := hsplit.behind
      exact (hlinkedOther hold' hold).trans hback.first_cell.2
    refine ⟨Function.update linked k (some ⟨key, value, back.head?.map Prod.fst⟩), ?_,
      Function.update_self .., ?_, fun j hj hne' => ?_⟩
    · have hfinal := Heap.modify_some hk' fun cell =>
        { cell with next := back.head?.map Prod.fst }
      simp [linkItem, hhead, hfound, hlinked, hdeleted, hfinal]
    · rw [Function.update_of_ne hbefore, hbefore']
    · rw [Function.update_of_ne hj, hlinkedOther hj hne']

/-- The chain with the new item in it, and the item that it has replaced. -/
theorem Chain.link [Fintype κ] (h : Chain heap head cells) (hk : heap k = none) (key : Bytes)
    (value : α) : ∃ heap' head' cells' replaced,
      linkItem heap head k key value = some (heap', head', replaced.head?.map Prod.fst) ∧
      Chain heap' head' cells' ∧ replaced.length ≤ 1 ∧
      cells'.map Prod.snd = putBehindFirst ⟨key, value⟩ (cells.map Prod.snd) ∧
      (cells' ++ replaced).Perm ((k, ⟨key, value⟩) :: cells) ∧
      (∀ cell ∈ replaced, (heap' cell.1).map TableCell.item = some cell.2) ∧
      ∀ j, j ≠ k → j ∉ cells.map Prod.fst → heap' j = heap j := by
  have hfresh := h.ne_fresh hk
  cases cells with
  | nil =>
    obtain rfl : head = none := h.path
    refine ⟨heap.alloc k ⟨key, value, none⟩, some k, [(k, ⟨key, value⟩)], [], rfl, ?_, by simp, rfl,
      by simp, by simp, fun j hj _ => ?_⟩
    · exact .cons (by rw [Heap.alloc_apply, if_pos rfl]) ⟨rfl, by simp⟩
    · rw [Heap.alloc_apply, if_neg hj]
  | cons first rest =>
    obtain ⟨front, back, rfl, hfront, hback⟩ := exists_split rest key
    have hne : first :: front ≠ [] := List.cons_ne_nil _ _
    obtain ⟨heap', hlink, hlinked⟩ := h.linked hk hfront hback value
    have hbefore := List.getLast_mem hne
    have hsplit : Chain heap head ((first :: front) ++ back) := h
    -- an item that is not the one in front keeps its cell
    have hkept {cell : κ × HAMHashTableItem α} (hmem : cell ∈ (first :: front) ++ back)
        (hcell : cell.1 ≠ ((first :: front).getLast hne).1) : heap' cell.1 = heap cell.1 :=
      hlinked.other_cells _ (fun heq => hfresh (heq ▸ List.mem_map_of_mem hmem)) hcell
    have hdisjoint : ∀ cell ∈ first :: front, ∀ other ∈ back, other.1 ≠ cell.1 :=
      fun cell hcell other hother => (hsplit.apart hcell hother).symm
    have hbehind : Chain heap' (some k) ((k, ⟨key, value⟩) :: back.tail) := by
      refine .cons hlinked.new_cell ?_
      obtain ⟨p, hchain⟩ := hsplit.behind
      cases back with
      | nil => exact ⟨rfl, by simp⟩
      | cons old back =>
        refine hchain.tail.congr fun j hj => ?_
        obtain ⟨cell, hcell, rfl⟩ := List.mem_map.mp hj
        have hmem := List.mem_cons_of_mem old hcell
        exact hkept (List.mem_append_right _ hmem) (hdisjoint _ hbefore cell hmem)
    refine ⟨heap', head, first :: front ++ (k, ⟨key, value⟩) :: back.tail, back.take 1, ?_, ?_,
      List.length_take_le 1 back, ?_, ?_, ?_, ?_⟩
    · rw [hlink, List.head?_take, if_neg one_ne_zero]
    · have hchain := hsplit.splice hbehind (fun cell hcell => ?_) fun cell hcell => ?_
      · rwa [if_neg hne] at hchain
      · rw [List.getLast?_eq_some_getLast hne] at hcell
        obtain rfl := Option.some.inj hcell
        exact hlinked.before_cell
      · exact hkept (List.mem_append_left _ (List.mem_of_mem_dropLast hcell))
          (hsplit.ne_last hne hcell)
    · have hput : KeyedList.put (·.key) (⟨key, value⟩ : HAMHashTableItem α)
          (front.map Prod.snd ++ back.map Prod.snd) =
          front.map Prod.snd ++ ⟨key, value⟩ :: (back.map Prod.snd).tail := by
        refine KeyedList.put_append _ (List.forall_mem_map.mpr hfront) fun item hitem => ?_
        rw [List.head?_map] at hitem
        obtain ⟨cell, hcell, rfl⟩ := Option.mem_map.mp hitem
        exact hback cell hcell
      simp only [List.cons_append, List.map_cons, List.map_append, putBehindFirst, hput,
        List.map_tail]
    · have hback' : (back.tail ++ back.take 1).Perm back := by
        refine List.perm_append_comm.trans ?_
        rw [← List.drop_one, List.take_append_drop]
      rw [List.append_assoc, List.cons_append, ← List.cons_append]
      exact List.perm_middle.trans ((hback'.append_left _).cons _)
    · intro cell hcell
      have hmem := List.mem_of_mem_take hcell
      rw [hkept (List.mem_append_right _ hmem) (hdisjoint _ hbefore cell hmem)]
      exact hsplit.data cell (List.mem_append_right _ hmem)
    · intro j hj hother
      refine hlinked.other_cells j hj fun heq => hother (heq ▸ ?_)
      exact List.mem_map_of_mem (List.mem_append_left back hbefore)

/-- The items in front of the one with the key that its removal takes out of the chain with it. -/
def lostItems (key : Bytes) (items : List (HAMHashTableItem α)) : List (HAMHashTableItem α) :=
  match Library.findToRemove key 0 0 items with
  | none => []
  | some (prev, tmp) => if prev = 0 then items.take tmp else (items.take tmp).drop (prev + 1)

theorem lostItems_of_notMem {items : List (HAMHashTableItem α)} (h : key ∉ items.map (·.key)) :
    lostItems key items = [] := by
  rw [lostItems, findToRemove_of_notMem h]

theorem lostItems_append {front rest : List (HAMHashTableItem α)} {item : HAMHashTableItem α}
    (hkey : item.key = key) (hfront : key ∉ front.map (·.key)) :
    lostItems key (front ++ item :: rest) =
      if trailing key 0 0 front = 0 then front else front.drop (trailing key 0 0 front + 1) := by
  rw [lostItems, findToRemove_append hfront hkey, zero_add]
  simp only [List.take_left]

/-- The last item that stays is linked to the items behind the removed one. -/
theorem Chain.relink {stay skipped : List (κ × HAMHashTableItem α)} (hstay : stay ≠ [])
    (h : Chain heap head (stay ++ (skipped ++ back))) : ∃ heap',
      heap.modify (some (stay.getLast hstay).1)
        (fun before => { before with next := back.head?.map Prod.fst }) = some heap' ∧
      Chain heap' head (stay ++ back) ∧
      (∀ j, (heap' j).map TableCell.item = (heap j).map TableCell.item) ∧
      ∀ j, j ≠ (stay.getLast hstay).1 → heap' j = heap j := by
  have hcell := h.last_cell hstay
  have hmem := List.getLast_mem hstay
  let linked := Function.update heap (stay.getLast hstay).1
    (some ⟨(stay.getLast hstay).2.key, (stay.getLast hstay).2.data, back.head?.map Prod.fst⟩)
  have hother {j : κ} (hj : j ≠ (stay.getLast hstay).1) : linked j = heap j :=
    Function.update_of_ne hj ..
  have hbehind : Chain linked (back.head?.map Prod.fst) back := by
    obtain ⟨p, hskipped⟩ := h.behind
    obtain ⟨r, hback⟩ := hskipped.behind
    have hstart : r = back.head?.map Prod.fst := by rw [hback.path.start, List.head?_map]
    rw [hstart] at hback
    refine hback.congr fun j hj => hother ?_
    obtain ⟨cell, hmem', rfl⟩ := List.mem_map.mp hj
    exact (h.apart hmem (List.mem_append_right _ hmem')).symm
  refine ⟨linked, Heap.modify_some hcell _, ?_, fun j => ?_, fun j => hother⟩
  · have hchain := h.splice hbehind (fun cell hlast => ?_) fun cell hmem' =>
      hother (h.ne_last hstay hmem')
    · rwa [if_neg hstay] at hchain
    · rw [List.getLast?_eq_some_getLast hstay] at hlast
      obtain rfl := Option.some.inj hlast
      exact Function.update_self ..
  · by_cases hj : j = (stay.getLast hstay).1
    · subst hj
      rw [hcell]
      simp [linked, TableCell.item]
    · rw [hother hj]

theorem Chain.unlink_absent [Fintype κ] (h : Chain heap head cells)
    (hkey : key ∉ (cells.map Prod.snd).map (·.key)) :
    TableHeap.unlinkItem heap head key = some none := by
  cases head with
  | none => rfl
  | some first =>
    obtain ⟨-, hsearch⟩ := h.search key
    rw [findToRemove_of_notMem hkey] at hsearch
    simp [TableHeap.unlinkItem, hsearch]

/-- What the removal of an item leaves of its chain, and what it loses of it. -/
theorem Chain.unlink [Fintype κ] {item : HAMHashTableItem α}
    (h : Chain heap head (front ++ (k, item) :: back)) (hkey : item.key = key)
    (hfront : key ∉ (front.map Prod.snd).map (·.key)) : ∃ heap' head' stay lost,
      front = stay ++ lost ∧
      TableHeap.unlinkItem heap head key = some (some (heap', head', k)) ∧
      Chain heap' head' (stay ++ back) ∧
      (stay ++ back).map Prod.snd = Library.unlinkItem (trailing key 0 0 (front.map Prod.snd))
        front.length ((front ++ (k, item) :: back).map Prod.snd) ∧
      lost.map Prod.snd = lostItems key ((front ++ (k, item) :: back).map Prod.snd) ∧
      (∀ j, (heap' j).map TableCell.item = (heap j).map TableCell.item) ∧
      ∀ j, j ∉ (front ++ (k, item) :: back).map Prod.fst → heap' j = heap j := by
  have hsnd : (front ++ (k, item) :: back).map Prod.snd =
      front.map Prod.snd ++ item :: back.map Prod.snd := by simp
  have hfind := findToRemove_append hfront hkey (back.map Prod.snd) 0 0
  have hprev := trailing_cases key 0 0 (front.map Prod.snd)
  rw [zero_add, List.length_map] at hfind hprev
  rw [hsnd, lostItems_append hkey hfront]
  generalize trailing key 0 0 (front.map Prod.snd) = prev at hfind hprev ⊢
  have hdrop : (front.map Prod.snd ++ item :: back.map Prod.snd).drop (front.length + 1) =
      back.map Prod.snd := by
    rw [← List.drop_drop, List.drop_left' (List.length_map _), List.drop_one, List.tail_cons]
  obtain ⟨p, hbehind⟩ := h.behind
  have hk := hbehind.first_cell.2
  cases head with
  | none => exact absurd h.path.start (by simp)
  | some first =>
    obtain ⟨hzero, hsearch⟩ := h.search key
    have htmp : ((front ++ (k, item) :: back).map Prod.fst).getD front.length first = k := by
      simp [List.getD_eq_getElem?_getD]
    rw [hsnd, hfind] at hsearch
    simp only [Option.map_some, Prod.map, htmp] at hsearch
    by_cases hfirst : prev = 0
    · subst hfirst
      dsimp only at hzero
      rw [hzero] at hsearch
      refine ⟨heap, back.head?.map Prod.fst, [], front, rfl, ?_, hbehind.tail, ?_, by simp,
        fun _ => rfl, fun _ _ => rfl⟩
      · simp [TableHeap.unlinkItem, hsearch, hk]
      · simp [Library.unlinkItem, hdrop]
    · have hlt := hprev.resolve_left hfirst
      have hsplit : front = front.take (prev + 1) ++ front.drop (prev + 1) :=
        (List.take_append_drop _ _).symm
      have hlength : (front.take (prev + 1)).length = prev + 1 :=
        List.length_take_of_le (Nat.succ_le_of_lt hlt)
      have hstay : front.take (prev + 1) ≠ [] := by
        intro hnil
        rw [hnil] at hlength
        cases hlength
      have hlast : ((front ++ (k, item) :: back).map Prod.fst).getD prev first =
          ((front.take (prev + 1)).getLast hstay).1 := by
        rw [List.getLast_eq_getElem, List.getElem_take]
        simp [List.getD_eq_getElem?_getD, List.getElem?_append_left, hlt, hlength]
      have hne : ((front.take (prev + 1)).getLast hstay).1 ≠ first := by
        rw [← hlast]
        intro heq
        refine hfirst (getD_inj h.nodup ?_ ?_ (heq.trans hzero.symm)) <;> simp
        omega
      have hchain := h
      rw [hsplit, List.append_assoc, ← List.singleton_append, ← List.append_assoc
        (front.drop (prev + 1))] at hchain
      obtain ⟨heap', hmodify, hleft, hitems, hsame⟩ := hchain.relink hstay
      refine ⟨heap', some first, _, _, hsplit, ?_, hleft, ?_, ?_, hitems, fun j hj =>
        hsame j fun heq => hj ?_⟩
      · rw [hlast] at hsearch
        simp [TableHeap.unlinkItem, hsearch, hk, hne, hmodify]
      · rw [Library.unlinkItem, if_neg hfirst, hdrop, List.take_append_of_le_length (by simpa),
          List.map_append, List.map_take]
      · rw [if_neg hfirst, List.map_drop]
      · rw [heq]
        exact List.mem_map_of_mem (List.mem_append_left _ (List.mem_of_mem_take
          (List.getLast_mem hstay)))

end Steps

end Hamlog.Library.TableHeap
