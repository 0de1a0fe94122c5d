import Mathlib.Data.List.Basic
import Mathlib.Tactic

/-! # Lists of items with a key

A list is read as a map: the first item with a key counts. Putting an item in
keeps the places of all others.
-/
namespace Hamlog.Foundation.KeyedList

variable {ι κ : Type*} [DecidableEq κ] (key : ι → κ)

def find (k : κ) (items : List ι) : Option ι := items.find? fun item => key item = k

/-- The item takes the place of the first item with its key, or else the last place. -/
def put (item : ι) : List ι → List ι
  | [] => [item]
  | next :: rest => if key next = key item then item :: rest else next :: put item rest

theorem find_cons (k : κ) (item : ι) (items : List ι) :
    find key k (item :: items) = if key item = k then some item else find key k items := by
  unfold find
  by_cases h : key item = k
  · rw [List.find?_cons_of_pos (by simpa using h), if_pos h]
  · rw [List.find?_cons_of_neg (by simpa using h), if_neg h]

theorem find_put_self (item : ι) (items : List ι) :
    find key (key item) (put key item items) = some item := by
  induction items with
  | nil => rw [put, find_cons, if_pos rfl]
  | cons next rest ih =>
    rw [put]
    split_ifs with h
    · rw [find_cons, if_pos rfl]
    · rw [find_cons, if_neg h, ih]

theorem find_put_of_ne {item : ι} {k : κ} (hk : k ≠ key item) (items : List ι) :
    find key k (put key item items) = find key k items := by
  induction items with
  | nil => rw [put, find_cons, if_neg (Ne.symm hk)]
  | cons next rest ih =>
    rw [put]
    split_ifs with h
    · rw [find_cons, find_cons, if_neg (Ne.symm hk), if_neg (h ▸ Ne.symm hk)]
    · rw [find_cons, find_cons, ih]

theorem mem_keys_put (item : ι) (items : List ι) (k : κ) :
    k ∈ (put key item items).map key ↔ k = key item ∨ k ∈ items.map key := by
  induction items with
  | nil => simp [put]
  | cons next rest ih =>
    rw [put]
    split_ifs with h
    · simp [h]
    · rw [List.map_cons, List.mem_cons, ih, List.map_cons, List.mem_cons]
      tauto

theorem put_append {item : ι} {front back : List ι} (hfront : ∀ other ∈ front, key other ≠ key item)
    (hback : ∀ other ∈ back.head?, key other = key item) :
    put key item (front ++ back) = front ++ item :: back.tail := by
  induction front with
  | nil =>
    cases back with
    | nil => rfl
    | cons next back => exact if_pos (hback next rfl)
  | cons next front ih =>
    obtain ⟨hnext, hrest⟩ := List.forall_mem_cons.mp hfront
    rw [List.cons_append, put, if_neg hnext, ih hrest, List.cons_append]

theorem put_of_notMem {item : ι} {items : List ι} (h : key item ∉ items.map key) :
    put key item items = items ++ [item] := by
  induction items with
  | nil => rfl
  | cons next rest ih =>
    rw [List.map_cons, List.mem_cons, not_or] at h
    rw [put, if_neg (Ne.symm h.1), ih h.2, List.cons_append]

theorem mem_put {item other : ι} {items : List ι} (h : other ∈ put key item items) :
    other = item ∨ other ∈ items := by
  induction items with
  | nil => exact Or.inl (List.mem_singleton.mp h)
  | cons next rest ih =>
    rw [put] at h
    split_ifs at h
    · exact (List.mem_cons.mp h).imp_right (List.mem_cons_of_mem _)
    · rcases List.mem_cons.mp h with rfl | hrest
      · exact Or.inr List.mem_cons_self
      · exact (ih hrest).imp_right (List.mem_cons_of_mem _)

end Hamlog.Foundation.KeyedList
