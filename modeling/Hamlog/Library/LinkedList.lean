import Hamlog.Foundation.LinkedHeap
import Hamlog.Foundation.Runs

/-! # The linked list of the client library

The items of a `HAMList` are cells of a heap, linked in both directions. The
operations are translated assignment by assignment; a NULL pointer that is
followed, an item that is freed twice and a loop that does not end have no
result.
-/
namespace Hamlog.Library.LinkedList
open Foundation

/-- `κ` are the addresses of the items and `δ` those of the data. -/
structure HAMListItem (κ δ : Type) where
  data : Option δ
  lptr : Option κ
  rptr : Option κ
  deriving DecidableEq

structure HAMList (κ : Type) where
  first : Option κ := none
  last : Option κ := none
  deriving DecidableEq

/-- A list with the heap that its items are in. -/
structure ListState (κ δ : Type) where
  heap : Heap κ (HAMListItem κ δ)
  list : HAMList κ := {}

variable {κ δ : Type}

section Operations
variable [DecidableEq κ] [Fintype κ] [DecidableEq δ]

/-- `ptr` is what `malloc` returns. -/
def hamListInsertFirst (state : ListState κ δ) (ptr : Option κ) (data : Option δ) :
    Option (ListState κ δ) :=
  match ptr with
  | none => some state
  | some k => do
    let { heap, list } := state
    let heap := heap.alloc k { data, lptr := none, rptr := list.first }
    if list.first ≠ none then
      let heap ← heap.modify list.first fun item => { item with lptr := ptr }
      return { heap, list := { list with first := ptr } }
    else return { heap, list := { first := ptr, last := ptr } }

def hamListInsertLast (state : ListState κ δ) (ptr : Option κ) (data : Option δ) :
    Option (ListState κ δ) :=
  match ptr with
  | none => some state
  | some k => do
    let { heap, list } := state
    let heap := heap.alloc k { data, lptr := list.last, rptr := none }
    if list.last ≠ none then
      let heap ← heap.modify list.last fun item => { item with rptr := ptr }
      return { heap, list := { list with last := ptr } }
    else return { heap, list := { first := ptr, last := ptr } }

/-- No loop over a list that ends makes more turns than there are addresses. -/
def turns (κ : Type) [Fintype κ] : ℕ := Fintype.card κ + 1

/-- The link behind `act` is taken out of the chain from `list->first` on. -/
def unlinkForward (state : ListState κ δ) (act : Option κ) : Option (ListState κ δ) := do
  let { heap, list } := state
  let item ← heap.load act
  if list.first = act then return { heap, list := { list with first := item.rptr } }
  else return { heap := ← heap.modify item.lptr fun left => { left with rptr := item.rptr }, list }

/-- The link in front of `act` is taken out of the chain from `list->last` on. -/
def unlinkBackward (state : ListState κ δ) (act : Option κ) : Option (ListState κ δ) := do
  let { heap, list } := state
  let item ← heap.load act
  if list.last = act then return { heap, list := { list with last := item.lptr } }
  else return { heap := ← heap.modify item.rptr fun right => { right with lptr := item.lptr }, list }

def hamListRemove (state : ListState κ δ) (data : Option δ) : Option (ListState κ δ) := do
  let act ← state.heap.find (·.rptr) (·.data = data) (turns κ) state.list.first
  if act = none then return state
  else
    let state ← unlinkForward state act
    let state ← unlinkBackward state act
    return { state with heap := ← state.heap.free act }

def hamListGetFirst (state : ListState κ δ) : Option (Option δ) :=
  if state.list.first = none then some none
  else (state.heap.load state.list.first).map (·.data)

def hamListGetLast (state : ListState κ δ) : Option (Option δ) :=
  if state.list.last = none then some none
  else (state.heap.load state.list.last).map (·.data)

/-- The data that is returned, and the list behind the call. -/
def hamListPopFirst (state : ListState κ δ) : Option (Option δ × ListState κ δ) :=
  if state.list.first = none then some (none, state)
  else do
    let item ← state.heap.load state.list.first
    return (item.data, ← hamListRemove state item.data)

/-! ## Runs of one list -/

/-- The inserting operations come with what `malloc` returns. -/
inductive ListOperation (κ δ : Type) where
  | insertFirst (ptr : Option κ) (data : Option δ)
  | insertLast (ptr : Option κ) (data : Option δ)
  | remove (data : Option δ)
  | popFirst

def ListOperation.run (state : ListState κ δ) : ListOperation κ δ → Option (ListState κ δ)
  | insertFirst ptr data => hamListInsertFirst state ptr data
  | insertLast ptr data => hamListInsertLast state ptr data
  | remove data => hamListRemove state data
  | popFirst => (hamListPopFirst state).map Prod.snd

/-- Memory that is allocated was not allocated before. -/
def ListOperation.fresh (heap : Heap κ (HAMListItem κ δ)) : ListOperation κ δ → Bool
  | insertFirst ptr _ => ptr.all fun k => (heap k).isNone
  | insertLast ptr _ => ptr.all fun k => (heap k).isNone
  | _ => true

/-- A new list, in a heap with any other items. -/
def listSystem (heap : Heap κ (HAMListItem κ δ)) : System (ListState κ δ) (ListOperation κ δ) where
  start := { heap }
  enabled state operation := operation.fresh state.heap
  step state operation := operation.run state

/-- What an operation does to a sequence. Nothing is inserted without memory. -/
def ListOperation.apply (xs : List (Option δ)) : ListOperation κ δ → List (Option δ)
  | insertFirst ptr data => if ptr = none then xs else data :: xs
  | insertLast ptr data => if ptr = none then xs else xs ++ [data]
  | remove data => xs.erase data
  | popFirst => xs.tail

/-- The list is read as the sequence: from both ends, and by the functions that return data. -/
structure ReadAs (state : ListState κ δ) (xs : List (Option δ)) : Prop where
  forward : state.heap.values (·.rptr) (·.data) (turns κ) state.list.first = some xs
  backward : state.heap.values (·.lptr) (·.data) (turns κ) state.list.last = some xs.reverse
  first_null : state.list.first = none ↔ xs = []
  last_null : state.list.last = none ↔ xs = []
  get_first : hamListGetFirst state = some xs.head?.join
  get_last : hamListGetLast state = some xs.getLast?.join
  pop_first : (hamListPopFirst state).map Prod.fst = some xs.head?.join

end Operations

/-! ## The other direction

`lptr` and `last` are used as `rptr` and `first` are. -/

def HAMListItem.mirror (item : HAMListItem κ δ) : HAMListItem κ δ :=
  { item with lptr := item.rptr, rptr := item.lptr }

def ListState.mirror (state : ListState κ δ) : ListState κ δ where
  heap := state.heap.map HAMListItem.mirror
  list := { first := state.list.last, last := state.list.first }

theorem mirror_mirror (state : ListState κ δ) : state.mirror.mirror = state := by
  have hcells : (state.heap.map HAMListItem.mirror).map HAMListItem.mirror = state.heap := by
    funext k
    cases hk : state.heap k <;> simp [hk, HAMListItem.mirror]
  rw [ListState.mirror, ListState.mirror, hcells]

section Mirror
variable [DecidableEq κ] (state : ListState κ δ)

theorem hamListInsertLast_mirror (ptr : Option κ) (data : Option δ) :
    hamListInsertLast state.mirror ptr data =
      (hamListInsertFirst state ptr data).map ListState.mirror := by
  cases ptr with
  | none => rfl
  | some k =>
    have halloc : (state.heap.map HAMListItem.mirror).alloc k
          { data, lptr := state.list.first, rptr := none } =
        (state.heap.alloc k { data, lptr := none, rptr := state.list.first }).map
          HAMListItem.mirror := by
      rw [Heap.map_alloc]
      rfl
    have hmodify (heap : Heap κ (HAMListItem κ δ)) :
        (heap.map HAMListItem.mirror).modify state.list.first
          (fun item => { item with rptr := some k }) =
        (heap.modify state.list.first fun item => { item with lptr := some k }).map
          (Heap.map HAMListItem.mirror) := Heap.map_modify fun cell => rfl
    simp only [hamListInsertLast, hamListInsertFirst, ListState.mirror, halloc, hmodify]
    split_ifs
    · cases Heap.modify _ state.list.first _ <;> rfl
    · rfl

theorem unlinkBackward_mirror (act : Option κ) :
    unlinkBackward state.mirror act = (unlinkForward state act).map ListState.mirror := by
  have hload : (state.heap.map HAMListItem.mirror).load act =
      (state.heap.load act).map HAMListItem.mirror := by
    cases act <;> rfl
  have hmodify (item : HAMListItem κ δ) :
      (state.heap.map HAMListItem.mirror).modify item.mirror.rptr
        (fun right => { right with lptr := item.mirror.lptr }) =
      (state.heap.modify item.lptr fun left => { left with rptr := item.rptr }).map
        (Heap.map HAMListItem.mirror) := Heap.map_modify fun cell => rfl
  simp only [unlinkBackward, unlinkForward, ListState.mirror, hload]
  cases state.heap.load act with
  | none => rfl
  | some item =>
    simp only [Option.map_some, Option.bind_eq_bind, Option.bind_some, hmodify]
    split_ifs
    · rfl
    · cases Heap.modify _ item.lptr _ <;> rfl

end Mirror

/-! ## The invariant -/

/-- The addresses of the items with their data. -/
structure Holds (state : ListState κ δ) (items : List (κ × Option δ)) : Prop where
  forward : state.heap.Path (·.rptr) state.list.first (items.map Prod.fst) none
  backward : state.heap.Path (·.lptr) state.list.last (items.map Prod.fst).reverse none
  data : ∀ item ∈ items, (state.heap item.1).map (·.data) = some item.2

variable {state : ListState κ δ} {items : List (κ × Option δ)}

theorem Holds.mirror (h : Holds state items) : Holds state.mirror items.reverse := by
  refine ⟨?_, ?_, fun item hitem => ?_⟩
  · rw [List.map_reverse]
    exact Heap.path_map.mpr h.backward
  · rw [List.map_reverse, List.reverse_reverse]
    exact Heap.path_map.mpr h.forward
  · rw [← h.data item (List.mem_reverse.mp hitem)]
    simp [ListState.mirror, Option.map_map, HAMListItem.mirror, Function.comp_def]

/-- The address of an item of the list is not that of new memory. -/
theorem Holds.ne_fresh (h : Holds state items) {item : κ × Option δ} (hitem : item ∈ items) {k : κ}
    (hfresh : state.heap k = none) : item.1 ≠ k := by
  rintro rfl
  simpa [hfresh] using h.data item hitem

/-- The test of the loop in `ham_list_remove` fails at items with other data. -/
theorem Holds.test_false [DecidableEq δ] (h : Holds state items) {others : List (κ × Option δ)}
    {data : Option δ} (hsub : others ⊆ items) (hothers : ∀ item ∈ others, item.2 ≠ data) :
    ∀ k ∈ others.map Prod.fst, ∀ item ∈ state.heap k, decide (item.data = data) = false := by
  intro k hk item hitem
  obtain ⟨other, hother, rfl⟩ := List.mem_map.mp hk
  have hread := h.data other (hsub hother)
  rw [Option.mem_def.mp hitem] at hread
  have hdata : item.data = other.2 := Option.some.inj hread
  rw [hdata]
  exact decide_eq_false (hothers other hother)

section Steps
variable [DecidableEq κ]

/-- What the four assignments do to the heap. -/
theorem hamListInsertFirst_spec {k : κ} (hfresh : state.heap k = none)
    (hfirst : ∀ j, state.list.first = some j → ∃ item, state.heap j = some item)
    (data : Option δ) : ∃ heap : Heap κ (HAMListItem κ δ),
      hamListInsertFirst state (some k) data = some
        { heap
          list :=
            { first := some k
              last := if state.list.first = none then some k else state.list.last } } ∧
      heap k = some { data, lptr := none, rptr := state.list.first } ∧
      ∀ j ≠ k, heap j = if state.list.first = some j then
        (state.heap j).map fun item => { item with lptr := some k } else state.heap j := by
  cases hlist : state.list.first with
  | none =>
    refine ⟨_, by simp only [hamListInsertFirst, hlist]; rfl, ?_, fun j hj => ?_⟩
    · simp [Heap.alloc_apply]
    · simp [Heap.alloc_apply, hj]
  | some j =>
    obtain ⟨item, hitem⟩ := hfirst j hlist
    have hjk : j ≠ k := by
      rintro rfl
      simp [hfresh] at hitem
    have hcell : state.heap.alloc k { data, lptr := none, rptr := some j } j = some item := by
      rw [Heap.alloc_apply, if_neg hjk, hitem]
    have hmodify := Heap.modify_some hcell fun item => { item with lptr := some k }
    refine ⟨_, by simp only [hamListInsertFirst, hlist, hmodify]; rfl, ?_, fun i hi => ?_⟩
    · simp [Heap.alloc_apply, Ne.symm hjk]
    · by_cases hij : i = j
      · subst hij
        simp [hitem]
      · simp [Heap.alloc_apply, hi, hij, Ne.symm hij]

theorem Holds.insertFirst (h : Holds state items) {k : κ} (hfresh : state.heap k = none)
    (data : Option δ) : ∃ next, hamListInsertFirst state (some k) data = some next ∧
      Holds next ((k, data) :: items) ∧ ∀ j ≠ k, state.heap j = none → next.heap j = none := by
  have hne : ∀ j ∈ items.map Prod.fst, j ≠ k := by
    intro j hj
    obtain ⟨item, hitem, rfl⟩ := List.mem_map.mp hj
    exact h.ne_fresh hitem hfresh
  have hstart := h.forward.start
  have hallocated (j : κ) (hj : state.list.first = some j) : ∃ item, state.heap j = some item :=
    h.forward.allocated (List.mem_of_mem_head? (hstart.symm.trans hj))
  obtain ⟨heap, hnext, hk, hother⟩ := hamListInsertFirst_spec hfresh hallocated data
  have hrptr : ∀ j ≠ k, (heap j).map (·.rptr) = (state.heap j).map (·.rptr) := by
    intro j hj
    rw [hother j hj]
    split_ifs <;> simp [Function.comp_def]
  have hdata : ∀ j ≠ k, (heap j).map (·.data) = (state.heap j).map (·.data) := by
    intro j hj
    rw [hother j hj]
    split_ifs <;> simp [Function.comp_def]
  have hlast : (items.map Prod.fst).reverse.getLast? = state.list.first := by
    rw [List.getLast?_reverse, hstart]
  refine ⟨_, hnext, ⟨?_, ?_, ?_⟩, fun j hj hnone => by simp [hother j hj, hnone]⟩
  · exact h.forward.cons (fun j hj => hrptr j (hne j hj)) (by simp [hk])
  · have hempty : (items.map Prod.fst).reverse = [] ↔ state.list.first = none := by
      rw [hstart, List.reverse_eq_nil_iff, List.head?_eq_none_iff]
    have hback : heap.Path (·.lptr) (if (items.map Prod.fst).reverse = [] then some k
        else state.list.last) ((items.map Prod.fst).reverse ++ [k]) none := by
      refine h.backward.concat (fun j hj => ?_) (fun j hj hnot => ?_) (by simp [hk])
      · rw [hlast, Option.mem_def] at hj
        obtain ⟨item, hitem⟩ := hallocated j hj
        rw [hother j (hne j (List.mem_of_mem_head? (hstart.symm.trans hj))), if_pos hj, hitem]
        rfl
      · rw [hlast, Option.mem_def] at hnot
        rw [hother j (hne j (List.mem_reverse.mp hj)), if_neg hnot]
    simpa [hempty] using hback
  · rw [List.forall_mem_cons]
    refine ⟨by simp [hk], fun item hitem => ?_⟩
    exact (hdata _ (h.ne_fresh hitem hfresh)).trans (h.data item hitem)

theorem Holds.insertLast (h : Holds state items) {k : κ} (hfresh : state.heap k = none)
    (data : Option δ) : ∃ next, hamListInsertLast state (some k) data = some next ∧
      Holds next (items ++ [(k, data)]) ∧ ∀ j ≠ k, state.heap j = none → next.heap j = none := by
  have hmirror : state.mirror.heap k = none := by simp [ListState.mirror, hfresh]
  obtain ⟨next, hnext, hholds, hfree⟩ := h.mirror.insertFirst hmirror data
  refine ⟨next.mirror, ?_, by simpa using hholds.mirror, fun j hj hnone => ?_⟩
  · rw [← mirror_mirror state, hamListInsertLast_mirror, hnext]
    rfl
  · simpa [ListState.mirror] using hfree j hj (by simp [ListState.mirror, hnone])

variable {front back : List κ} {act : κ} {item : HAMListItem κ δ}

/-- The chain from the first item on goes past the item; the other chain is as it was. -/
theorem unlinkForward_spec
    (h : state.heap.Path (·.rptr) state.list.first (front ++ act :: back) none)
    (hact : state.heap act = some item) (hleft : item.lptr = front.getLast?) :
    ∃ next, unlinkForward state (some act) = some next ∧
      next.heap.Path (·.rptr) next.list.first (front ++ back) none ∧
      next.list.last = state.list.last ∧ next.heap act = some item ∧
      (∀ k, (next.heap k).map (·.lptr) = (state.heap k).map (·.lptr)) ∧
      ∀ k, (next.heap k).map (·.data) = (state.heap k).map (·.data) := by
  have hload : state.heap.load (some act) = some item := hact
  have hrptr : (state.heap act).map (·.rptr) = some item.rptr := by rw [hact]; rfl
  have hstart := h.start
  rcases List.eq_nil_or_concat front with rfl | ⟨start, left, rfl⟩
  · have hpath := h.unlink hrptr (by simp) fun j _ _ => rfl
    refine ⟨{ state with list := { state.list with first := item.rptr } }, ?_, hpath, rfl, hact,
      fun _ => rfl, fun _ => rfl⟩
    simp [unlinkForward, hload, hstart]
  · rw [List.concat_eq_append] at *
    have hnodup := List.nodup_append.mp h.nodup
    have hleft_ne : left ≠ act := hnodup.2.2 left (by simp) act List.mem_cons_self
    have hfirst : state.list.first ≠ some act := by
      intro heq
      rw [hstart, List.head?_append_of_ne_nil _ (by simp)] at heq
      exact hnodup.2.2 act (List.mem_of_mem_head? heq) act List.mem_cons_self rfl
    obtain ⟨before, hbefore⟩ := h.allocated (k := left) (by simp)
    obtain ⟨heap, hmodify, hcell, hother⟩ : ∃ heap, state.heap.modify (some left)
          (fun left => { left with rptr := item.rptr }) = some heap ∧
        heap left = some { before with rptr := item.rptr } ∧
        ∀ k ≠ left, heap k = state.heap k :=
      ⟨_, Heap.modify_some hbefore _, Function.update_self left _ _,
        fun k hk => Function.update_of_ne hk _ _⟩
    have hpath : heap.Path (·.rptr) (if start ++ [left] = [] then item.rptr else state.list.first)
        (start ++ [left] ++ back) none :=
      h.unlink hrptr (by simp [hcell]) fun j _ hj => by
        rw [hother j (by simpa using Ne.symm hj)]
    refine ⟨{ state with heap }, ?_, by simpa using hpath, rfl, (hother act hleft_ne.symm).trans hact,
      fun k => ?_, fun k => ?_⟩
    · simp only [unlinkForward, hload, Option.bind_eq_bind, Option.bind_some, if_neg hfirst, hleft,
        List.getLast?_concat, hmodify]
      rfl
    · by_cases hk : k = left
      · simp [hk, hbefore, hcell]
      · simp [hother k hk]
    · by_cases hk : k = left
      · simp [hk, hbefore, hcell]
      · simp [hother k hk]

theorem unlinkBackward_spec
    (h : state.heap.Path (·.lptr) state.list.last (back ++ act :: front) none)
    (hact : state.heap act = some item) (hright : item.rptr = back.getLast?) :
    ∃ next, unlinkBackward state (some act) = some next ∧
      next.heap.Path (·.lptr) next.list.last (back ++ front) none ∧
      next.list.first = state.list.first ∧ next.heap act = some item ∧
      (∀ k, (next.heap k).map (·.rptr) = (state.heap k).map (·.rptr)) ∧
      ∀ k, (next.heap k).map (·.data) = (state.heap k).map (·.data) := by
  have hmirror : state.mirror.heap act = some item.mirror := by simp [ListState.mirror, hact]
  have hforward : state.mirror.heap.Path (·.rptr) state.mirror.list.first (back ++ act :: front)
      none := Heap.path_map.mpr h
  obtain ⟨next, hnext, hpath, hlast, hitem, hrptr, hdata⟩ :=
    unlinkForward_spec hforward hmirror hright
  refine ⟨next.mirror, ?_, Heap.path_map.mpr hpath, hlast, ?_, fun k => ?_, fun k => ?_⟩
  · rw [← mirror_mirror state, unlinkBackward_mirror, hnext]
    rfl
  · simp [ListState.mirror, hitem, HAMListItem.mirror]
  · simpa [ListState.mirror, Function.comp_def, HAMListItem.mirror] using hrptr k
  · simpa [ListState.mirror, Function.comp_def, HAMListItem.mirror] using hdata k

variable [Fintype κ] [DecidableEq δ] {data : Option δ}

theorem Holds.remove {front back : List (κ × Option δ)} {act : κ}
    (h : Holds state (front ++ (act, data) :: back)) (hfront : ∀ item ∈ front, item.2 ≠ data) :
    ∃ next, hamListRemove state data = some next ∧ Holds next (front ++ back) := by
  have hforward := h.forward
  have hbackward := h.backward
  rw [List.map_append, List.map_cons] at hforward hbackward
  rw [List.reverse_append, List.reverse_cons, List.append_assoc, List.singleton_append] at hbackward
  have hnodup := hforward.nodup
  obtain ⟨item, hitem⟩ := hforward.allocated (k := act) (by simp)
  have hdata : item.data = data := by
    simpa [hitem] using h.data (act, data) (by simp)
  have hleft : item.lptr = (front.map Prod.fst).getLast? := by
    simpa [hitem] using hbackward.link_at
  have hright : item.rptr = (back.map Prod.fst).reverse.getLast? := by
    simpa [hitem] using hforward.link_at
  have hfind : state.heap.find (·.rptr) (·.data = data) (turns κ) state.list.first =
      some (some act) := by
    refine hforward.find_some (h.test_false (List.subset_append_left _ _) hfront) hitem
      (decide_eq_true hdata) ?_
    have hlength := hforward.length_le
    simp only [List.length_append, List.length_cons] at hlength
    exact Nat.lt_succ_of_le (by omega)
  -- first one chain is closed over the item, then the other
  obtain ⟨mid, hmid, hpath, hlast, hmid_item, hlptr, hmid_data⟩ :=
    unlinkForward_spec hforward hitem hleft
  obtain ⟨unlinked, hunlinked, hback, hfirst, hunlinked_item, hrptr, hunlinked_data⟩ :=
    unlinkBackward_spec (hlast ▸ hbackward.congr fun k _ => hlptr k) hmid_item hright
  obtain ⟨heap, hfree, hkept⟩ : ∃ heap, unlinked.heap.free (some act) = some heap ∧
      ∀ k ∈ front.map Prod.fst ++ back.map Prod.fst, heap k = unlinked.heap k := by
    refine ⟨_, Heap.free_some hunlinked_item, fun k hk => Function.update_of_ne ?_ _ _⟩
    rintro rfl
    exact (List.nodup_middle.mp hnodup).notMem hk
  refine ⟨{ unlinked with heap }, ?_, ?_, ?_, fun other hother => ?_⟩
  · simp [hamListRemove, hfind, hmid, hunlinked, hfree]
  · rw [List.map_append]
    refine Heap.Path.congr (fun k hk => ?_) (hfirst ▸ hpath)
    exact (congrArg _ (hkept k hk)).trans (hrptr k)
  · rw [List.map_append, List.reverse_append]
    exact hback.congr fun k hk => congrArg _ (hkept k (by simpa [or_comm] using hk))
  · have hmem := List.mem_map_of_mem (f := Prod.fst) hother
    rw [List.map_append] at hmem
    have hread := (hunlinked_data other.1).trans (hmid_data other.1)
    refine ((congrArg _ (hkept other.1 hmem)).trans hread).trans (h.data other ?_)
    simp only [List.mem_append, List.mem_cons] at hother ⊢
    tauto

theorem Holds.remove_other (h : Holds state items) (hitems : ∀ item ∈ items, item.2 ≠ data) :
    hamListRemove state data = some state := by
  have hfind : state.heap.find (·.rptr) (·.data = data) (turns κ) state.list.first = some none :=
    h.forward.find_none (h.test_false (List.Subset.refl _) hitems)
      (Nat.lt_succ_of_le h.forward.length_le)
  simp [hamListRemove, hfind]

/-- A removal takes the first of the items with the data. -/
theorem Holds.erase (h : Holds state items) (data : Option δ) : ∃ next others,
    hamListRemove state data = some next ∧ Holds next others ∧
      others.map Prod.snd = (items.map Prod.snd).erase data := by
  by_cases hmem : data ∈ items.map Prod.snd
  · obtain ⟨xs, ys, hxs, hsplit, herase⟩ := List.exists_erase_eq hmem
    obtain ⟨front, rest, rfl, rfl, hrest⟩ := List.map_eq_append_iff.mp hsplit
    obtain ⟨⟨act, _⟩, back, rfl, rfl, rfl⟩ := List.map_eq_cons_iff.mp hrest
    obtain ⟨next, hnext, hholds⟩ := h.remove fun item hitem heq =>
      hxs (List.mem_map.mpr ⟨item, hitem, heq⟩)
    exact ⟨next, front ++ back, hnext, hholds, by rw [List.map_append, herase]⟩
  · refine ⟨state, items, h.remove_other fun item hitem heq => ?_, h, ?_⟩
    · exact hmem (List.mem_map.mpr ⟨item, hitem, heq⟩)
    · rw [List.erase_of_not_mem hmem]

theorem Holds.popFirst (h : Holds state items) : ∃ next,
    hamListPopFirst state = some ((items.map Prod.snd).head?.join, next) ∧
      Holds next items.tail := by
  have hstart := h.forward.start
  cases items with
  | nil => exact ⟨state, by simp [hamListPopFirst, hstart], h⟩
  | cons entry rest =>
    obtain ⟨item, hitem⟩ := h.forward.allocated (k := entry.1) List.mem_cons_self
    have hdata : item.data = entry.2 := by simpa [hitem] using h.data entry List.mem_cons_self
    have hsplit : Holds state ([] ++ (entry.1, entry.2) :: rest) := h
    obtain ⟨next, hnext, hholds⟩ := hsplit.remove (by simp)
    refine ⟨next, ?_, hholds⟩
    simp [hamListPopFirst, hstart, Heap.load, hitem, hdata, hnext]

/-- Every operation succeeds and does to the sequence what it should. -/
theorem Holds.run (h : Holds state items) {operation : ListOperation κ δ}
    (hfresh : operation.fresh state.heap = true) : ∃ next others,
      operation.run state = some next ∧ Holds next others ∧
        others.map Prod.snd = operation.apply (items.map Prod.snd) := by
  cases operation with
  | insertFirst ptr data =>
    cases ptr with
    | none => exact ⟨state, items, rfl, h, rfl⟩
    | some k =>
      obtain ⟨next, hnext, hholds, -⟩ := h.insertFirst (Option.isNone_iff_eq_none.mp hfresh) data
      exact ⟨next, _, hnext, hholds, rfl⟩
  | insertLast ptr data =>
    cases ptr with
    | none => exact ⟨state, items, rfl, h, rfl⟩
    | some k =>
      obtain ⟨next, hnext, hholds, -⟩ := h.insertLast (Option.isNone_iff_eq_none.mp hfresh) data
      exact ⟨next, _, hnext, hholds, by simp [ListOperation.apply]⟩
  | remove data =>
    obtain ⟨next, others, hnext, hholds, herase⟩ := h.erase data
    exact ⟨next, others, hnext, hholds, herase⟩
  | popFirst =>
    obtain ⟨next, hnext, hholds⟩ := h.popFirst
    exact ⟨next, _, by rw [ListOperation.run, hnext]; rfl, hholds, List.map_tail⟩

theorem Holds.readAs (h : Holds state items) : ReadAs state (items.map Prod.snd) := by
  have hfirst := h.forward.start
  have hlast := h.backward.start
  have hread : (items.map Prod.fst).map (fun k => (state.heap k).map (·.data)) =
      (items.map Prod.snd).map some := by
    rw [List.map_map, List.map_map]
    exact List.map_congr_left h.data
  obtain ⟨next, hpop, -⟩ := h.popFirst
  refine ⟨h.forward.values hread (Nat.lt_succ_of_le h.forward.length_le), ?_, ?_, ?_, ?_, ?_, ?_⟩
  · refine h.backward.values ?_ (Nat.lt_succ_of_le h.backward.length_le)
    rw [List.map_reverse, List.map_reverse, hread]
  · simp [hfirst]
  · simp [hlast]
  · cases items with
    | nil => simp [hamListGetFirst, hfirst]
    | cons entry rest =>
      rw [hamListGetFirst, hfirst]
      simpa using h.data entry List.mem_cons_self
  · rcases List.eq_nil_or_concat items with rfl | ⟨start, entry, rfl⟩
    · simp [hamListGetLast, hlast]
    · rw [List.concat_eq_append] at *
      rw [hamListGetLast, hlast]
      simpa using h.data entry (List.mem_append_right _ List.mem_cons_self)
  · rw [hpop]
    rfl

/-- In every run the list is read as the sequence that its operations make, and the next operation
succeeds. A heap may hold any items of other lists. -/
theorem readAs_run {heap : Heap κ (HAMListItem κ δ)} {operations : List (ListOperation κ δ)}
    (h : (listSystem heap).Run (fun _ _ => true) operations state) :
    ReadAs state (operations.foldl ListOperation.apply []) ∧
      ∀ operation : ListOperation κ δ, operation.fresh state.heap = true →
        (operation.run state).isSome := by
  have hstart : Holds (listSystem heap).start [] := ⟨rfl, rfl, by simp⟩
  obtain ⟨items, hholds, hitems⟩ : ∃ items, Holds state items ∧
      items.map Prod.snd = operations.foldl ListOperation.apply [] := by
    refine System.Run.invariant (I := fun past state => ∃ items, Holds state items ∧
      items.map Prod.snd = past.foldl ListOperation.apply []) ⟨[], hstart, rfl⟩ ?_ h
    rintro past state operation next ⟨items, hholds, hitems⟩ hfresh - hstep
    obtain ⟨other, others, hother, hothers, hsnd⟩ := hholds.run hfresh
    obtain rfl := Option.some.inj (hother.symm.trans hstep)
    exact ⟨others, hothers, by rw [List.foldl_append, ← hitems, hsnd]; rfl⟩
  refine ⟨hitems ▸ hholds.readAs, fun operation hfresh => ?_⟩
  obtain ⟨next, -, hnext, -⟩ := hholds.run hfresh
  rw [hnext]
  rfl

end Steps

/-- Data that is in the list twice, a removal of an inner item and of one that is not there, and an
allocation that fails. -/
def sampleOperations : List (ListOperation (Fin 4) (Fin 3)) :=
  [.insertFirst (some 2) (some 0), .insertLast (some 0) (some 1), .insertLast (some 3) (some 0),
    .insertFirst none (some 2), .remove (some 1), .remove (some 2), .insertFirst (some 0) none,
    .remove (some 0), .popFirst]

theorem readAs_sampleOperations : ∃ state : ListState (Fin 4) (Fin 3),
    state.list.first = some 3 ∧ ReadAs state [some 0] := by
  have hexec : ((listSystem fun _ => none).exec (fun _ _ => true) { heap := fun _ => none }
      sampleOperations).any (fun state => state.list.first = some 3) = true := by decide
  obtain ⟨state, hrun, hfirst⟩ := System.exists_run_of_exec hexec
  exact ⟨state, of_decide_eq_true hfirst, (readAs_run hrun).1⟩

end Hamlog.Library.LinkedList
