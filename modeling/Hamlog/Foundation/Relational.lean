import Mathlib.Data.List.Perm.Basic

/-! # Tables with an owner

A table is a list of rows; a statement inserts a row, rewrites the rows of a
selection or deletes them. `Isolated` says that a change left all rows outside
a predicate as they were, in any order.
-/
namespace Hamlog.Foundation

variable {ρ : Type*} {mine sel : ρ → Bool} {old mid new : List ρ}

/-- The rows that are not `mine` are the same before and after. -/
def Isolated (mine : ρ → Bool) (old new : List ρ) : Prop :=
  (new.filter fun row => !mine row).Perm (old.filter fun row => !mine row)

namespace Isolated

theorem refl (rows : List ρ) : Isolated mine rows rows := List.Perm.refl _

theorem of_eq (h : new = old) : Isolated mine old new := h ▸ refl new

theorem trans (h : Isolated mine old mid) (h' : Isolated mine mid new) : Isolated mine old new :=
  List.Perm.trans h' h

/-- An inserted row of one's own, wherever it stands. -/
theorem insert (row : ρ) (hrow : mine row = true) (hnew : new.Perm (row :: old)) :
    Isolated mine old new := by
  have hfilter := hnew.filter fun row => !mine row
  rwa [List.filter_cons_of_neg (by simp [hrow])] at hfilter

/-- A selection of one's own rows, rewritten to rows of one's own. -/
theorem update (sel : ρ → Bool) (f : ρ → ρ)
    (hsel : ∀ row ∈ old, sel row = true → mine row = true)
    (hf : ∀ row ∈ old, sel row = true → mine (f row) = true)
    (hnew : new.Perm (old.map fun row => if sel row then f row else row)) :
    Isolated mine old new := by
  refine (hnew.filter _).trans (List.Perm.of_eq ?_)
  clear hnew
  induction old with
  | nil => rfl
  | cons row rows ih =>
    have hrows := ih (fun r hr => hsel r (List.mem_cons_of_mem _ hr))
      (fun r hr => hf r (List.mem_cons_of_mem _ hr))
    by_cases hrow : sel row = true
    · have hmine := hsel row List.mem_cons_self hrow
      have hmine' := hf row List.mem_cons_self hrow
      simpa [hrow, hmine, hmine'] using hrows
    · cases hmine : mine row <;> simpa [hrow, hmine] using hrows

/-- A deleted selection of one's own rows. -/
theorem delete (hsel : ∀ row ∈ old, sel row = true → mine row = true)
    (hnew : new = old.filter fun row => !sel row) : Isolated mine old new := by
  subst hnew
  rw [Isolated, List.filter_filter]
  refine List.Perm.of_eq (List.filter_congr fun row hrow => ?_)
  cases hs : sel row with
  | false => simp
  | true => simp [hsel row hrow hs]

end Isolated
end Hamlog.Foundation
