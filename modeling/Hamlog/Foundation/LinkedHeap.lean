import Mathlib.Data.Fintype.Card
import Mathlib.Data.List.Nodup
import Mathlib.Tactic

/-! # Heaps of linked cells

A heap maps the allocated addresses to their cells. A path follows one link of
the cells from a pointer to another; a structure with several links has one path
for each of them. The lemmas say what a path is after the cells at its ends were
changed, whatever happened to the other links.
-/
namespace Hamlog.Foundation

/-- The allocated cells. A pointer is `none` if it is null. -/
abbrev Heap (κ β : Type*) := κ → Option β

namespace Heap
variable {κ β γ : Type*}

def load (heap : Heap κ β) (p : Option κ) : Option β := p.bind heap

@[simp] theorem load_some (heap : Heap κ β) (k : κ) : heap.load (some k) = heap k := rfl

section Access
variable [DecidableEq κ]

/-- An assignment to fields of the cell behind a pointer. -/
def modify (heap : Heap κ β) (p : Option κ) (f : β → β) : Option (Heap κ β) :=
  p.bind fun k => (heap k).map fun cell => Function.update heap k (some (f cell))

def alloc (heap : Heap κ β) (k : κ) (cell : β) : Heap κ β := Function.update heap k (some cell)

def free (heap : Heap κ β) (p : Option κ) : Option (Heap κ β) :=
  p.bind fun k => (heap k).map fun _ => Function.update heap k none

theorem modify_some {heap : Heap κ β} {k : κ} {cell : β} (h : heap k = some cell) (f : β → β) :
    heap.modify (some k) f = some (Function.update heap k (some (f cell))) := by
  simp [modify, h]

theorem alloc_apply (heap : Heap κ β) (k j : κ) (cell : β) :
    heap.alloc k cell j = if j = k then some cell else heap j :=
  Function.update_apply heap k (some cell) j

theorem free_some {heap : Heap κ β} {k : κ} {cell : β} (h : heap k = some cell) :
    heap.free (some k) = some (Function.update heap k none) := by
  simp [free, h]

end Access

variable (heap : Heap κ β) (link : β → Option κ)

/-- The first cell from a pointer on that meets a test, and a null pointer behind the last one. -/
def find (test : β → Bool) : ℕ → Option κ → Option (Option κ)
  | 0, _ => none
  | _ + 1, none => some none
  | fuel + 1, some k =>
    (heap k).bind fun cell => if test cell then some (some k) else find test fuel (link cell)

/-- What is read from the cells from a pointer on, up to a null pointer. -/
def values (value : β → γ) : ℕ → Option κ → Option (List γ)
  | 0, _ => none
  | _ + 1, none => some []
  | fuel + 1, some k =>
    (heap k).bind fun cell => (values value fuel (link cell)).map (value cell :: ·)

/-- The path of the links from the pointer `p` over the addresses to the pointer `q`. -/
def Path : Option κ → List κ → Option κ → Prop
  | p, [], q => p = q
  | p, k :: ks, q => p = some k ∧ ∃ next, (heap k).map link = some next ∧ Path next ks q

variable {heap link} {heap' : Heap κ β} {p q r : Option κ} {k : κ} {ks ls : List κ}

theorem Path.congr (hsame : ∀ k ∈ ks, (heap' k).map link = (heap k).map link)
    (h : Path heap link p ks q) : Path heap' link p ks q := by
  induction ks generalizing p with
  | nil => exact h
  | cons k ks ih =>
    obtain ⟨hp, next, hnext, hrest⟩ := h
    refine ⟨hp, next, (hsame k List.mem_cons_self).trans hnext, ih (fun j hj => ?_) hrest⟩
    exact hsame j (List.mem_cons_of_mem _ hj)

theorem path_append : Path heap link p (ks ++ ls) q ↔
    ∃ r, Path heap link p ks r ∧ Path heap link r ls q := by
  induction ks generalizing p with
  | nil => simp [Path]
  | cons k ks ih =>
    constructor
    · rintro ⟨hp, next, hnext, hrest⟩
      obtain ⟨r, hfront, hback⟩ := ih.mp hrest
      exact ⟨r, ⟨hp, next, hnext, hfront⟩, hback⟩
    · rintro ⟨r, ⟨hp, next, hnext, hfront⟩, hback⟩
      exact ⟨hp, next, hnext, ih.mpr ⟨r, hfront, hback⟩⟩

theorem Path.unique (h : Path heap link p ks none) (hother : Path heap link p ls none) :
    ks = ls := by
  induction ks generalizing p ls with
  | nil =>
    cases ls with
    | nil => rfl
    | cons l ls => cases h.symm.trans hother.1
  | cons k ks ih =>
    obtain ⟨rfl, next, hnext, hrest⟩ := h
    cases ls with
    | nil => cases hother
    | cons l ls =>
      obtain ⟨hkl, other, hlink, hbehind⟩ := hother
      obtain rfl := Option.some.inj hkl
      obtain rfl := Option.some.inj (hnext.symm.trans hlink)
      rw [ih hrest hbehind]

/-- A path that ends does not come to an address again. -/
theorem Path.nodup (h : Path heap link p ks none) : ks.Nodup := by
  induction ks generalizing p with
  | nil => exact List.nodup_nil
  | cons k ks ih =>
    have hpath := h
    obtain ⟨rfl, next, hnext, hrest⟩ := h
    refine List.nodup_cons.mpr ⟨fun hmem => ?_, ih hrest⟩
    -- from its second visit on the path would be as long as from its first
    obtain ⟨front, back, rfl⟩ := List.append_of_mem hmem
    obtain ⟨r, -, hback⟩ := path_append.mp hrest
    obtain rfl := hback.1
    have hlength := congrArg List.length (hback.unique hpath)
    simp only [List.length_cons, List.length_append] at hlength
    omega

theorem Path.start (h : Path heap link p ks none) : p = ks.head? := by
  cases ks with
  | nil => exact h
  | cons k ks => exact h.1

theorem Path.allocated (h : Path heap link p ks q) (hk : k ∈ ks) : ∃ cell, heap k = some cell := by
  obtain ⟨front, back, rfl⟩ := List.append_of_mem hk
  obtain ⟨r, -, -, next, hnext, -⟩ := path_append.mp h
  obtain ⟨cell, hcell, -⟩ := Option.map_eq_some_iff.mp hnext
  exact ⟨cell, hcell⟩

theorem Path.link_at (h : Path heap link p (ks ++ k :: ls) none) :
    (heap k).map link = some ls.head? := by
  obtain ⟨r, -, -, next, hnext, hback⟩ := path_append.mp h
  rw [hnext, hback.start]

theorem Path.length_le [Fintype κ] (h : Path heap link p ks none) :
    ks.length ≤ Fintype.card κ :=
  h.nodup.length_le_card

/-! ## Changes at the ends -/

/-- The last link of a path leads somewhere else. -/
theorem Path.redirect (h : Path heap link p ks r) (hnodup : ks.Nodup)
    (hlast : ∀ k ∈ ks.getLast?, (heap' k).map link = some q)
    (hsame : ∀ k ∈ ks, k ∉ ks.getLast? → (heap' k).map link = (heap k).map link) :
    Path heap' link (if ks = [] then q else p) ks q := by
  rcases List.eq_nil_or_concat ks with rfl | ⟨front, k, rfl⟩
  · exact if_pos rfl
  · rw [List.concat_eq_append] at *
    rw [if_neg (by simp)]
    obtain ⟨s, hfront, hk⟩ := path_append.mp h
    refine path_append.mpr ⟨s, hfront.congr fun j hj => ?_, hk.1, q, hlast k (by simp), rfl⟩
    have hne : j ≠ k := (List.nodup_append.mp hnodup).2.2 j hj k List.mem_cons_self
    exact hsame j (List.mem_append_left _ hj) (by simpa using Ne.symm hne)

/-- A cell is put behind the last one. -/
theorem Path.concat (h : Path heap link p ks none) (hlast : ∀ j ∈ ks.getLast?,
    (heap' j).map link = some (some k)) (hsame : ∀ j ∈ ks, j ∉ ks.getLast? →
      (heap' j).map link = (heap j).map link) (hk : (heap' k).map link = some none) :
    Path heap' link (if ks = [] then some k else p) (ks ++ [k]) none :=
  path_append.mpr ⟨some k, h.redirect h.nodup hlast hsame, rfl, none, hk, rfl⟩

/-- A cell is put in front of the first one. -/
theorem Path.cons (h : Path heap link p ks none)
    (hsame : ∀ j ∈ ks, (heap' j).map link = (heap j).map link)
    (hk : (heap' k).map link = some p) : Path heap' link (some k) (k :: ks) none :=
  ⟨rfl, p, hk, h.congr hsame⟩

/-- The link to a cell is replaced by its own. -/
theorem Path.unlink (h : Path heap link p (ks ++ k :: ls) none)
    (hk : (heap k).map link = some r)
    (hlast : ∀ j ∈ ks.getLast?, (heap' j).map link = some r)
    (hsame : ∀ j ∈ ks ++ ls, j ∉ ks.getLast? → (heap' j).map link = (heap j).map link) :
    Path heap' link (if ks = [] then r else p) (ks ++ ls) none := by
  have hnodup := List.nodup_append.mp h.nodup
  obtain ⟨s, hfront, -, next, hnext, hback⟩ := path_append.mp h
  obtain rfl := Option.some.inj (hk.symm.trans hnext)
  refine path_append.mpr ⟨r, hfront.redirect hnodup.1 hlast fun j hj => ?_, hback.congr ?_⟩
  · exact hsame j (List.mem_append_left _ hj)
  · intro j hj
    refine hsame j (List.mem_append_right _ hj) fun hmem => ?_
    exact hnodup.2.2 j (List.mem_of_mem_getLast? hmem) j (List.mem_cons_of_mem _ hj) rfl

/-! ## The same heap with other cells -/

variable {β' : Type*} {f : β → β'}

def map (f : β → β') (heap : Heap κ β) : Heap κ β' := fun k => (heap k).map f

@[simp] theorem map_apply (f : β → β') (heap : Heap κ β) (k : κ) :
    heap.map f k = (heap k).map f := rfl

theorem path_map {link : β' → Option κ} :
    Path (heap.map f) link p ks q ↔ Path heap (link ∘ f) p ks q := by
  induction ks generalizing p with
  | nil => exact Iff.rfl
  | cons k ks ih => simp only [Path, ih, map_apply, Option.map_map]

section Access
variable [DecidableEq κ]

theorem map_update (k : κ) (cell : Option β) : map f (Function.update heap k cell) =
    Function.update (heap.map f) k (cell.map f) := by
  funext j
  by_cases hj : j = k
  · subst hj
    simp
  · simp [hj]

theorem map_alloc (k : κ) (cell : β) : map f (heap.alloc k cell) = (heap.map f).alloc k (f cell) :=
  map_update k (some cell)

theorem map_modify {g : β → β} {g' : β' → β'} (h : ∀ cell, g' (f cell) = f (g cell)) :
    (heap.map f).modify p g' = (heap.modify p g).map (map f) := by
  cases p with
  | none => rfl
  | some k => cases hk : heap k <;> simp [modify, hk, h, map_update]

end Access

/-! ## Loops over a path -/

theorem Path.values {value : β → γ} (h : Path heap link p ks none) {xs : List γ}
    (hxs : ks.map (fun k => (heap k).map value) = xs.map some) {fuel : ℕ}
    (hfuel : ks.length < fuel) : heap.values link value fuel p = some xs := by
  induction ks generalizing p xs fuel with
  | nil =>
    obtain ⟨fuel, rfl⟩ := Nat.exists_eq_succ_of_ne_zero (Nat.ne_zero_of_lt hfuel)
    obtain rfl : xs = [] := by simpa using hxs.symm
    obtain rfl : p = none := h
    rfl
  | cons k ks ih =>
    obtain ⟨fuel, rfl⟩ := Nat.exists_eq_succ_of_ne_zero (Nat.ne_zero_of_lt hfuel)
    obtain ⟨rfl, next, hnext, hrest⟩ := h
    obtain ⟨cell, hcell, rfl⟩ := Option.map_eq_some_iff.mp hnext
    cases xs with
    | nil => simp at hxs
    | cons x xs =>
      simp only [List.map_cons, List.cons.injEq, hcell, Option.map_some, Option.some.injEq] at hxs
      rw [Heap.values, hcell, Option.bind_some, ih hrest hxs.2 (by simpa using hfuel)]
      simp [hxs.1]

theorem Path.find_none {test : β → Bool} (h : Path heap link p ks none)
    (hks : ∀ k ∈ ks, ∀ cell ∈ heap k, test cell = false) {fuel : ℕ} (hfuel : ks.length < fuel) :
    heap.find link test fuel p = some none := by
  induction ks generalizing p fuel with
  | nil =>
    obtain ⟨fuel, rfl⟩ := Nat.exists_eq_succ_of_ne_zero (Nat.ne_zero_of_lt hfuel)
    obtain rfl : p = none := h
    rfl
  | cons k ks ih =>
    obtain ⟨fuel, rfl⟩ := Nat.exists_eq_succ_of_ne_zero (Nat.ne_zero_of_lt hfuel)
    obtain ⟨rfl, next, hnext, hrest⟩ := h
    obtain ⟨cell, hcell, rfl⟩ := Option.map_eq_some_iff.mp hnext
    rw [Heap.find, hcell, Option.bind_some, if_neg (by simp [hks k List.mem_cons_self cell hcell])]
    exact ih hrest (fun j hj => hks j (List.mem_cons_of_mem _ hj)) (by simpa using hfuel)

theorem Path.find_some {test : β → Bool} {cell : β} (h : Path heap link p (ks ++ k :: ls) q)
    (hks : ∀ j ∈ ks, ∀ cell ∈ heap j, test cell = false) (hcell : heap k = some cell)
    (htest : test cell = true) {fuel : ℕ} (hfuel : ks.length < fuel) :
    heap.find link test fuel p = some (some k) := by
  induction ks generalizing p fuel with
  | nil =>
    obtain ⟨fuel, rfl⟩ := Nat.exists_eq_succ_of_ne_zero (Nat.ne_zero_of_lt hfuel)
    obtain rfl := h.1
    simp [Heap.find, hcell, htest]
  | cons j ks ih =>
    obtain ⟨fuel, rfl⟩ := Nat.exists_eq_succ_of_ne_zero (Nat.ne_zero_of_lt hfuel)
    obtain ⟨rfl, next, hnext, hrest⟩ := h
    obtain ⟨other, hother, rfl⟩ := Option.map_eq_some_iff.mp hnext
    rw [Heap.find, hother, Option.bind_some,
      if_neg (by simp [hks j List.mem_cons_self other hother])]
    exact ih hrest (fun i hi => hks i (List.mem_cons_of_mem _ hi)) (by simpa using hfuel)

end Heap
end Hamlog.Foundation
