import Mathlib.Data.List.Basic
import Mathlib.Tactic

/-! # Streams taken in blocks

A state that takes its input in blocks of one size. Input comes in pieces of any
length; what does not fill a block is held back. Where the pieces end makes no
difference, and an input of whole blocks is a fold over the blocks.
-/
namespace Hamlog.Foundation.BlockStream

variable {σ α : Type*} (size : ℕ) (process : σ → List α → σ)

/-- The state, and the input that is held back, take one more element. -/
def feed (x : σ × List α) (a : α) : σ × List α :=
  if x.2.length + 1 = size then (process x.1 (x.2 ++ [a]), []) else (x.1, x.2 ++ [a])

def absorb (x : σ × List α) (xs : List α) : σ × List α := xs.foldl (feed size process) x

/-- The blocks of an input of `size * n` elements, one after the other. -/
def foldBlocks (s : σ) (n : ℕ) (xs : List α) : σ :=
  (List.range n).foldl (fun s i => process s ((xs.drop (size * i)).take size)) s

variable {size process} {s : σ} {held xs ys : List α}

@[simp] theorem absorb_nil (x : σ × List α) : absorb size process x [] = x := rfl

/-- Two pieces are absorbed like their concatenation. -/
theorem absorb_append (x : σ × List α) (xs ys : List α) :
    absorb size process x (xs ++ ys) = absorb size process (absorb size process x xs) ys :=
  List.foldl_append

/-- Input that does not fill the block is held back. -/
theorem absorb_short (h : held.length + xs.length < size) :
    absorb size process (s, held) xs = (s, held ++ xs) := by
  induction xs generalizing held with
  | nil => simp
  | cons a xs ih =>
    rw [List.length_cons] at h
    have hfeed : feed size process (s, held) a = (s, held ++ [a]) := if_neg (by dsimp only; omega)
    have hrest : (held ++ [a]).length + xs.length < size := by
      rw [List.length_append, List.length_singleton]
      omega
    calc absorb size process (s, held) (a :: xs)
        = absorb size process (s, held ++ [a]) xs := by rw [absorb, List.foldl_cons, hfeed, absorb]
      _ = (s, held ++ a :: xs) := by rw [ih hrest, List.append_assoc, List.singleton_append]

/-- Input that fills the block is processed with it. -/
theorem absorb_fill (hne : xs ≠ []) (h : held.length + xs.length = size) :
    absorb size process (s, held) xs = (process s (held ++ xs), []) := by
  induction xs using List.reverseRecOn with
  | nil => exact absurd rfl hne
  | append_singleton ys a _ =>
    rw [List.length_append, List.length_singleton] at h
    have hfull : (held ++ ys).length + 1 = size := by rw [List.length_append]; omega
    have hshort : absorb size process (s, held) ys = (s, held ++ ys) := absorb_short (by omega)
    rw [absorb_append, hshort, ← List.append_assoc]
    exact if_pos hfull

theorem absorb_block (hsize : 0 < size) (h : size ≤ xs.length) :
    absorb size process (s, []) xs =
      absorb size process (process s (xs.take size), []) (xs.drop size) := by
  have hlength : (xs.take size).length = size := List.length_take_of_le h
  have hne : xs.take size ≠ [] := List.ne_nil_of_length_pos (by omega)
  conv_lhs => rw [← List.take_append_drop size xs, absorb_append]
  rw [absorb_fill hne (by simpa using hlength), List.nil_append]

/-- What is held back never fills a block, and its length is that of all input so far. -/
theorem length_absorb {x : σ × List α} (h : x.2.length < size) :
    (absorb size process x xs).2.length = (x.2.length + xs.length) % size := by
  induction xs generalizing x with
  | nil => simp [Nat.mod_eq_of_lt h]
  | cons a xs ih =>
    change (absorb size process (feed size process x a) xs).2.length = _
    rw [List.length_cons]
    by_cases hfull : x.2.length + 1 = size
    · have hfeed : feed size process x a = (process x.1 (x.2 ++ [a]), []) := if_pos hfull
      have hsum : x.2.length + (xs.length + 1) = size + xs.length := by omega
      rw [hfeed, ih (by simp only [List.length_nil]; omega), hsum, Nat.add_mod_left,
        List.length_nil, Nat.zero_add]
    · have hfeed : feed size process x a = (x.1, x.2 ++ [a]) := if_neg hfull
      rw [hfeed, ih (by simp only [List.length_append, List.length_singleton]; omega)]
      simp only [List.length_append, List.length_singleton]
      rw [Nat.add_assoc, Nat.add_comm 1]

/-- An input of whole blocks is a fold over the blocks. -/
theorem absorb_blocks (hsize : 0 < size) {n : ℕ} (h : xs.length = size * n) :
    absorb size process (s, []) xs = (foldBlocks size process s n xs, []) := by
  induction n generalizing s xs with
  | zero =>
    obtain rfl : xs = [] := List.eq_nil_of_length_eq_zero (by simpa using h)
    rfl
  | succ n ih =>
    have hle : size ≤ xs.length := by rw [h, Nat.mul_succ]; omega
    have hdrop : (xs.drop size).length = size * n := by
      rw [List.length_drop, h, Nat.mul_succ]
      omega
    rw [absorb_block hsize hle, ih hdrop, foldBlocks, foldBlocks, List.range_succ_eq_map,
      List.foldl_cons, List.foldl_map, Nat.mul_zero, List.drop_zero]
    simp only [List.drop_drop, Nat.mul_succ, Nat.add_comm]

end Hamlog.Foundation.BlockStream
