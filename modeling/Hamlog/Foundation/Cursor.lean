import Mathlib.Data.List.DropRight
import Mathlib.Tactic

/-! # Cursors over a memory block

A cursor is a signed offset into a block of cells. Every access is checked against
the ends of the block and every loop counts its turns, so that a walk which
leaves the block or does not end is a fault instead of a result. The lemmas say
where a loop stops in terms of what lies in front of a cursor and behind it.
-/
namespace Hamlog.Foundation

/-- Why a walk has no result: it accesses a cell outside of its block, or it makes more turns than
it has fuel for. -/
inductive WalkFault where
  | outside
  | endless
  deriving DecidableEq, Repr

namespace Cursor
variable {α σ : Type} (mem : List α)

def read (i : ℤ) : Except WalkFault α :=
  if i < 0 then .error .outside
  else
    match mem[i.toNat]? with
    | none => .error .outside
    | some c => .ok c

def write (i : ℤ) (c : α) : Except WalkFault (List α) :=
  if i < 0 ∨ mem.length ≤ i then .error .outside else .ok (mem.set i.toNat c)

/-- A cursor moves on as long as `step` accepts the cell under it. -/
def scan (step : σ → α → Option σ) : ℕ → σ → ℤ → Except WalkFault (σ × ℤ)
  | 0, _, _ => .error .endless
  | fuel + 1, s, i => do
    match step s (← read mem i) with
    | none => .ok (s, i)
    | some s => scan step fuel s (i + 1)

/-- A cursor moves over the cells of a kind. -/
def skip (p : α → Bool) (fuel : ℕ) (i : ℤ) : Except WalkFault ℤ := do
  return (← scan mem (fun _ c => if p c then some () else none) fuel () i).2

/-- A cursor moves over the cells of a kind, up to the cursor `limit`, whose cell is not read. -/
def skipTo (p : α → Bool) (limit : ℤ) : ℕ → ℤ → Except WalkFault ℤ
  | 0, _ => .error .endless
  | fuel + 1, i =>
    if i = limit then .ok i
    else do
      if p (← read mem i) then skipTo p limit fuel (i + 1) else .ok i

/-- A cursor moves back over the cells of a kind, down to the cursor `limit`. -/
def skipBack (p : α → Bool) (limit : ℤ) : ℕ → ℤ → Except WalkFault ℤ
  | 0, _ => .error .endless
  | fuel + 1, i =>
    if i < limit then .ok i
    else do
      if p (← read mem i) then skipBack p limit fuel (i - 1) else .ok i

/-- `memcpy`: a copy of `n` cells. -/
def memcpy : ℕ → ℤ → Except WalkFault (List α)
  | 0, _ => .ok []
  | n + 1, i => do
    let c ← read mem i
    return c :: (← memcpy n (i + 1))

variable [DecidableEq α]

/-- `strchr`: the first cell that holds `c`, in front of the terminator `e`. -/
def strchr (e c : α) : ℕ → ℤ → Except WalkFault (Option ℤ)
  | 0, _ => .error .endless
  | fuel + 1, i => do
    let d ← read mem i
    if d = c then return some i
    else if d = e then return none
    else strchr e c fuel (i + 1)

/-- `strndup`: a copy of at most `n` cells, up to the terminator `e`. -/
def strndup (e : α) : ℕ → ℤ → Except WalkFault (List α)
  | 0, _ => .ok []
  | n + 1, i => do
    let c ← read mem i
    if c = e then return []
    else return c :: (← strndup e n (i + 1))

end Cursor

/-! ## Where the loops stop

The block is written as what lies in front of the cursor and what lies behind it, so that a loop
is described by the cells that it passes. -/

namespace Cursor
variable {α σ : Type}

theorem cast_length_concat (front : List α) (c : α) :
    (front.length : ℤ) + 1 = ((front ++ [c]).length : ℕ) := by
  simp

@[simp] theorem read_length (front : List α) (c : α) (rest : List α) :
    read (front ++ c :: rest) front.length = .ok c := by
  simp [read]

@[simp] theorem write_length (front : List α) (c d : α) (rest : List α) :
    write (front ++ c :: rest) front.length d = .ok (front ++ d :: rest) := by
  simp [write]

/-- Cells for which a step is taken are passed, up to the first one for which it is not. -/
theorem scan_eq {step : σ → α → Option σ} {passed : List α} {s s' : σ}
    (hpassed : passed.foldlM step s = some s') {c : α} (hstop : step s' c = none)
    (front rest : List α) {fuel : ℕ} (hfuel : passed.length < fuel) :
    scan (front ++ (passed ++ c :: rest)) step fuel s front.length =
      .ok (s', ((front ++ passed).length : ℕ)) := by
  obtain ⟨fuel, rfl⟩ := Nat.exists_eq_succ_of_ne_zero (Nat.ne_of_gt (Nat.zero_lt_of_lt hfuel))
  induction passed generalizing front s fuel with
  | nil =>
    cases hpassed
    simp [scan, bind, Except.bind, hstop]
  | cons d passed ih =>
    obtain ⟨t, ht, hpassed⟩ := Option.bind_eq_some_iff.mp hpassed
    rw [List.length_cons] at hfuel
    obtain ⟨fuel, rfl⟩ := Nat.exists_eq_succ_of_ne_zero (show fuel ≠ 0 by omega)
    have hnext := ih hpassed (front ++ [d]) fuel (by omega)
    rw [List.append_assoc, List.singleton_append, List.append_assoc, List.singleton_append] at hnext
    rw [scan, List.cons_append, read_length]
    simp only [bind, Except.bind, ht, cast_length_concat front d, hnext]

/-- A cursor that does not meet its stop leaves the block. -/
theorem scan_outside {step : σ → α → Option σ} {passed : List α} {s s' : σ}
    (hpassed : passed.foldlM step s = some s') (front : List α) {fuel : ℕ}
    (hfuel : passed.length < fuel) :
    scan (front ++ passed) step fuel s front.length = .error .outside := by
  obtain ⟨fuel, rfl⟩ := Nat.exists_eq_succ_of_ne_zero (Nat.ne_of_gt (Nat.zero_lt_of_lt hfuel))
  induction passed generalizing front s fuel with
  | nil => simp [scan, read, bind, Except.bind]
  | cons d passed ih =>
    obtain ⟨t, ht, hpassed⟩ := Option.bind_eq_some_iff.mp hpassed
    rw [List.length_cons] at hfuel
    obtain ⟨fuel, rfl⟩ := Nat.exists_eq_succ_of_ne_zero (show fuel ≠ 0 by omega)
    have hnext := ih hpassed (front ++ [d]) fuel (by omega)
    rw [List.append_assoc, List.singleton_append] at hnext
    rw [scan, read_length]
    simp only [bind, Except.bind, ht, cast_length_concat front d, hnext]

theorem foldlM_unit {p : α → Bool} {passed : List α} (h : ∀ d ∈ passed, p d) :
    passed.foldlM (fun _ c => if p c then some () else none) () = some () := by
  induction passed with
  | nil => rfl
  | cons d passed ih =>
    rw [List.foldlM_cons, if_pos (h d List.mem_cons_self)]
    exact ih fun c hc => h c (List.mem_cons_of_mem _ hc)

theorem skip_eq {p : α → Bool} {passed : List α} (hpassed : ∀ d ∈ passed, p d) {c : α}
    (hstop : p c = false) (front rest : List α) {fuel : ℕ} (hfuel : passed.length < fuel) :
    skip (front ++ (passed ++ c :: rest)) p fuel front.length =
      .ok ((front ++ passed).length : ℕ) := by
  rw [skip, scan_eq (foldlM_unit hpassed) (by simp [hstop]) front rest hfuel]
  rfl

/-- The cursor comes to the first cell in front of the limit that is not of the kind. -/
theorem skipTo_eq (p : α → Bool) (front text rest : List α) {fuel : ℕ}
    (hfuel : text.length < fuel) :
    skipTo (front ++ (text ++ rest)) p ((front ++ text).length : ℕ) fuel front.length =
      .ok ((front ++ text.takeWhile p).length : ℕ) := by
  obtain ⟨fuel, rfl⟩ := Nat.exists_eq_succ_of_ne_zero (Nat.ne_of_gt (Nat.zero_lt_of_lt hfuel))
  induction text generalizing front fuel with
  | nil => simp [skipTo]
  | cons c text ih =>
    rw [List.length_cons] at hfuel
    obtain ⟨fuel, rfl⟩ := Nat.exists_eq_succ_of_ne_zero (show fuel ≠ 0 by omega)
    have hlimit : ¬(front.length : ℤ) = ((front ++ c :: text).length : ℕ) := by
      rw [List.length_append, List.length_cons]
      omega
    have hnext := ih (front ++ [c]) fuel (by omega)
    simp only [List.append_assoc, List.singleton_append] at hnext
    rw [skipTo, if_neg hlimit, List.cons_append, read_length]
    by_cases hc : p c
    · simp only [bind, Except.bind, hc, if_true, cast_length_concat front c, hnext,
        List.takeWhile_cons]
    · simp [bind, Except.bind, hc]

/-- The cursor comes back to the last cell from the limit on that is not of the kind, or to the cell
in front of the limit. -/
theorem skipBack_eq (p : α → Bool) (front text rest : List α) {fuel : ℕ}
    (hfuel : text.length < fuel) :
    skipBack (front ++ (text ++ rest)) p front.length fuel (((front ++ text).length : ℕ) - 1) =
      .ok (((front ++ text.rdropWhile p).length : ℕ) - 1) := by
  obtain ⟨fuel, rfl⟩ := Nat.exists_eq_succ_of_ne_zero (Nat.ne_of_gt (Nat.zero_lt_of_lt hfuel))
  induction text using List.reverseRecOn generalizing rest fuel with
  | nil => simp [skipBack]
  | append_singleton text c ih =>
    rw [List.length_append, List.length_singleton] at hfuel
    obtain ⟨fuel, rfl⟩ := Nat.exists_eq_succ_of_ne_zero (show fuel ≠ 0 by omega)
    have hlast : (((front ++ (text ++ [c])).length : ℕ) : ℤ) - 1 =
        ((front ++ text).length : ℕ) := by
      rw [← List.append_assoc, ← cast_length_concat, add_sub_cancel_right]
    have hlimit : ¬(((front ++ text).length : ℕ) : ℤ) < front.length := by simp
    have hread := read_length (front ++ text) c rest
    have hnext := ih (c :: rest) fuel (by omega)
    simp only [List.append_assoc, List.singleton_append] at hread ⊢
    rw [hlast, skipBack, if_neg hlimit, hread]
    by_cases hc : p c
    · simp only [bind, Except.bind, hc, if_true]
      rw [List.rdropWhile_concat_pos _ _ _ hc, hnext]
    · simp only [bind, Except.bind, hc, Bool.false_eq_true, if_false]
      rw [List.rdropWhile_concat_neg _ _ _ hc, hlast]

theorem memcpy_eq (front text rest : List α) :
    memcpy (front ++ (text ++ rest)) text.length front.length = .ok text := by
  induction text generalizing front with
  | nil => rfl
  | cons c text ih =>
    have hnext := ih (front ++ [c])
    simp only [List.append_assoc, List.singleton_append] at hnext
    rw [List.length_cons, memcpy, List.cons_append, read_length]
    simp only [bind, Except.bind, cast_length_concat front c, hnext, pure, Except.pure]

variable [DecidableEq α] {e : α}

theorem strchr_eq {c : α} {text : List α} (h : e ∉ text) (hce : c ≠ e) (front rest : List α)
    {fuel : ℕ} (hfuel : text.length < fuel) :
    strchr (front ++ (text ++ e :: rest)) e c fuel front.length =
      .ok (if c ∈ text then some ((front ++ text.takeWhile (· ≠ c)).length : ℕ) else none) := by
  obtain ⟨fuel, rfl⟩ := Nat.exists_eq_succ_of_ne_zero (Nat.ne_of_gt (Nat.zero_lt_of_lt hfuel))
  induction text generalizing front fuel with
  | nil => simp [strchr, bind, Except.bind, Ne.symm hce, pure, Except.pure]
  | cons d text ih =>
    rw [List.mem_cons, not_or] at h
    rw [List.length_cons] at hfuel
    obtain ⟨fuel, rfl⟩ := Nat.exists_eq_succ_of_ne_zero (show fuel ≠ 0 by omega)
    have hnext := ih h.2 (front ++ [d]) fuel (by omega)
    simp only [List.append_assoc, List.singleton_append] at hnext
    rw [strchr, List.cons_append, read_length]
    by_cases hd : d = c
    · subst hd
      simp [bind, Except.bind, pure, Except.pure]
    · simp only [bind, Except.bind, hd, Ne.symm h.1, if_false, cast_length_concat front d, hnext,
        List.mem_cons, Ne.symm hd, false_or, ne_eq, decide_not, List.takeWhile_cons, decide_false,
        Bool.not_false, if_true]

theorem strndup_eq {text : List α} (h : e ∉ text) (front rest : List α) :
    strndup (front ++ (text ++ rest)) e text.length front.length = .ok text := by
  induction text generalizing front with
  | nil => rfl
  | cons c text ih =>
    rw [List.mem_cons, not_or] at h
    have hnext := ih h.2 (front ++ [c])
    simp only [List.append_assoc, List.singleton_append] at hnext
    rw [List.length_cons, strndup, List.cons_append, read_length]
    simp only [bind, Except.bind, Ne.symm h.1, if_false, cast_length_concat front c, hnext, pure,
      Except.pure]

end Cursor
end Hamlog.Foundation
