import Mathlib.Data.Nat.Basic
import Mathlib.Tactic.Basic

/-! # Loops with exits

A loop tests a guard and runs a body. The body goes on with a new state, leaves
the loop with a result, or faults. Turns are counted, so that a rank which
every turn lowers bounds their number.
-/
namespace Hamlog.Foundation

structure Loop (σ ρ ε : Type*) where
  guard : σ → Bool
  body : σ → Except ε (σ ⊕ ρ)

/-- How a loop ends: the guard fails, the body leaves the loop, or the body faults. -/
inductive Loop.End (σ ρ ε : Type*) where
  | passed (s : σ)
  | left (r : ρ)
  | fault (e : ε)

namespace Loop
variable {σ ρ ε : Type*} (L : Loop σ ρ ε)

/-- The state in front of the guard, behind a number of turns. -/
inductive After (s : σ) : ℕ → σ → Prop
  | start : After s 0 s
  | turn {n : ℕ} {t u : σ} (run : After s n t) (guard : L.guard t)
      (body : L.body t = .ok (.inl u)) : After s (n + 1) u

/-- How the loop ends, and the number of turns it makes. -/
inductive Ends : σ → ℕ → End σ ρ ε → Prop
  | passed {s : σ} (guard : L.guard s = false) : Ends s 0 (.passed s)
  | left {s : σ} {r : ρ} (guard : L.guard s) (body : L.body s = .ok (.inr r)) : Ends s 1 (.left r)
  | fault {s : σ} {e : ε} (guard : L.guard s) (body : L.body s = .error e) : Ends s 1 (.fault e)
  | turn {s t : σ} {n : ℕ} {e : End σ ρ ε} (guard : L.guard s) (body : L.body s = .ok (.inl t))
      (run : Ends t n e) : Ends s (n + 1) e

variable {L} {s t : σ} {n m : ℕ} {e f : End σ ρ ε}

theorem After.head (hguard : L.guard s) (hbody : L.body s = .ok (.inl t)) {u : σ}
    (h : L.After t n u) : L.After s (n + 1) u := by
  induction h with
  | start => exact .turn .start hguard hbody
  | turn _ guard body ih => exact ih.turn guard body

/-- What every turn keeps holds in front of every test of the guard. -/
theorem After.invariant {I : σ → Prop} (hs : I s)
    (hturn : ∀ t u, I t → L.guard t → L.body t = .ok (.inl u) → I u) (h : L.After s n t) : I t := by
  induction h with
  | start => exact hs
  | turn _ guard body ih => exact hturn _ _ ih guard body

/-- A loop ends in one way. -/
theorem Ends.unique (h : L.Ends s n e) (h' : L.Ends s m f) : n = m ∧ e = f := by
  induction h generalizing m f with
  | passed guard =>
    cases h' with
    | passed => exact ⟨rfl, rfl⟩
    | left guard' | fault guard' | turn guard' => simp [guard] at guard'
  | left guard body =>
    cases h' with
    | passed guard' => simp [guard] at guard'
    | left _ body' | fault _ body' | turn _ body' => simp_all
  | fault guard body =>
    cases h' with
    | passed guard' => simp [guard] at guard'
    | left _ body' | fault _ body' | turn _ body' => simp_all
  | turn guard body _ ih =>
    cases h' with
    | passed guard' => simp [guard] at guard'
    | left _ body' | fault _ body' => simp [body] at body'
    | turn _ body' run' =>
      obtain rfl : _ = _ := Sum.inl.inj (Except.ok.inj (body.symm.trans body'))
      obtain ⟨rfl, rfl⟩ := ih run'
      exact ⟨rfl, rfl⟩

/-- The last turn of a loop that ends. -/
theorem Ends.last (h : L.Ends s n e) :
    match e with
    | .passed t => L.After s n t ∧ L.guard t = false
    | .left r => ∃ t m, n = m + 1 ∧ L.After s m t ∧ L.guard t ∧ L.body t = .ok (.inr r)
    | .fault x => ∃ t m, n = m + 1 ∧ L.After s m t ∧ L.guard t ∧ L.body t = .error x := by
  induction h with
  | passed guard => exact ⟨.start, guard⟩
  | left guard body => exact ⟨_, 0, rfl, .start, guard, body⟩
  | fault guard body => exact ⟨_, 0, rfl, .start, guard, body⟩
  | @turn s t n e guard body _ ih =>
    cases e with
    | passed => exact ⟨ih.1.head guard body, ih.2⟩
    | left | fault =>
      obtain ⟨u, m, rfl, hafter, hlast⟩ := ih
      exact ⟨u, m + 1, rfl, hafter.head guard body, hlast⟩

variable (L) in
/-- The loop ends in a fault of its body. -/
def Faults (s : σ) : Prop := ∃ n x, L.Ends s n (.fault x)

theorem not_faults_of_ends (h : L.Ends s n e) (he : ∀ x, e ≠ .fault x) : ¬L.Faults s :=
  fun ⟨_, x, hfault⟩ => he x (h.unique hfault).2

theorem faults_turn_iff (hguard : L.guard s) (hbody : L.body s = .ok (.inl t)) :
    L.Faults s ↔ L.Faults t := by
  constructor
  · rintro ⟨n, x, hends⟩
    cases hends with
    | fault _ hbody' => simp [hbody] at hbody'
    | turn _ hbody' hrun =>
      obtain rfl : _ = _ := Sum.inl.inj (Except.ok.inj (hbody.symm.trans hbody'))
      exact ⟨_, x, hrun⟩
  · rintro ⟨n, x, hends⟩
    exact ⟨n + 1, x, .turn hguard hbody hends⟩

/-- A rank that is positive where the guard holds and that every turn lowers bounds the number of
turns. -/
theorem exists_ends_of_rank {I : σ → Prop} (rank : σ → ℕ)
    (hpos : ∀ t, I t → L.guard t → 0 < rank t)
    (hturn : ∀ t u, I t → L.guard t → L.body t = .ok (.inl u) → I u ∧ rank u < rank t)
    (hs : I s) : ∃ n ≤ rank s, ∃ e, L.Ends s n e := by
  induction hrank : rank s using Nat.strong_induction_on generalizing s with
  | _ r ih =>
    cases hguard : L.guard s with
    | false => exact ⟨0, Nat.zero_le r, _, .passed hguard⟩
    | true =>
      have hone : 1 ≤ r := hrank ▸ hpos s hs hguard
      cases hbody : L.body s with
      | error x => exact ⟨1, hone, _, .fault hguard hbody⟩
      | ok next =>
        cases next with
        | inr r => exact ⟨1, hone, _, .left hguard hbody⟩
        | inl t =>
          obtain ⟨ht, hlt⟩ := hturn s t hs hguard hbody
          obtain ⟨n, hn, e, hends⟩ := ih (rank t) (hrank ▸ hlt) ht rfl
          exact ⟨n + 1, by omega, e, .turn hguard hbody hends⟩

end Loop
end Hamlog.Foundation
