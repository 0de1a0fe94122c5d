import Mathlib.Data.List.Basic
import Mathlib.Data.List.TakeWhile
import Mathlib.Tactic.SplitIfs

/-! # Lines of a stream

A stream is read as lines that end with a terminator, and an unfinished line
behind them. The unfinished line is the state that reading carries from one
part of the stream to the next.
-/
namespace Hamlog.Foundation
variable {α : Type*} [DecidableEq α] (e : α)

/-- The lines that end in a part of a stream, and the unfinished line behind them. The first line
goes on from `current`. -/
def splitLines : List α → List α → List (List α) × List α
  | current, [] => ([], current)
  | current, c :: s =>
    if c = e then (current :: (splitLines [] s).1, (splitLines [] s).2)
    else splitLines (current ++ [c]) s

/-- The stream behind its first line; the whole of it when no line ends. -/
def afterLine (s : List α) : List α := if e ∈ s then (s.dropWhile (· ≠ e)).tail else s

variable {e} {l s t : List α}

theorem splitLines_of_notMem (hs : e ∉ s) (current : List α) :
    splitLines e current s = ([], current ++ s) := by
  induction s generalizing current with
  | nil => simp [splitLines]
  | cons c s ih =>
    simp only [List.mem_cons, not_or] at hs
    simp [splitLines, Ne.symm hs.1, ih hs.2]

theorem splitLines_line (hl : e ∉ l) (current : List α) :
    splitLines e current (l ++ e :: s) =
      ((current ++ l) :: (splitLines e [] s).1, (splitLines e [] s).2) := by
  induction l generalizing current with
  | nil => simp [splitLines]
  | cons c l ih =>
    simp only [List.mem_cons, not_or] at hl
    simp [splitLines, Ne.symm hl.1, ih hl.2]

/-- Reading goes on from the unfinished line. -/
theorem splitLines_append (current : List α) :
    splitLines e current (s ++ t) =
      ((splitLines e current s).1 ++ (splitLines e (splitLines e current s).2 t).1,
        (splitLines e (splitLines e current s).2 t).2) := by
  induction s generalizing current with
  | nil => simp [splitLines]
  | cons c s ih =>
    rw [List.cons_append, splitLines, splitLines]
    split_ifs <;> simp [ih]

theorem afterLine_line (hl : e ∉ l) : afterLine e (l ++ e :: s) = s := by
  have hdrop : (l ++ e :: s).dropWhile (· ≠ e) = e :: s := by
    rw [List.dropWhile_append_of_pos fun c hc => by simpa using fun h : c = e => hl (h ▸ hc)]
    exact List.dropWhile_cons_of_neg (by simp)
  rw [afterLine, if_pos (by simp), hdrop, List.tail_cons]

theorem length_afterLine_lt (hs : e ∈ s) : (afterLine e s).length < s.length := by
  have hdrop := (List.dropWhile_suffix (p := fun c => decide (c ≠ e)) (l := s)).length_le
  have hpos := List.length_pos_of_mem hs
  rw [afterLine, if_pos hs, List.length_tail]
  omega

theorem length_afterLine_le : (afterLine e s).length ≤ s.length := by
  by_cases hs : e ∈ s
  · exact (length_afterLine_lt hs).le
  · rw [afterLine, if_neg hs]

/-- A line is left behind as well when the reading skips its first bytes. -/
theorem length_afterLine_drop_lt (hs : e ∈ s) (k : ℕ) :
    (afterLine e (s.drop k)).length < s.length := by
  cases k with
  | zero => exact length_afterLine_lt hs
  | succ k =>
    have hrest := length_afterLine_le (e := e) (s := s.drop (k + 1))
    have hpos := List.length_pos_of_mem hs
    rw [List.length_drop] at hrest
    omega

/-- Induction over the lines of a stream. -/
@[elab_as_elim]
theorem lineInduction {P : List α → Prop} (unfinished : ∀ t, e ∉ t → P t)
    (line : ∀ l s, e ∉ l → P s → P (l ++ e :: s)) (s : List α) : P s := by
  by_cases hs : e ∈ s
  · obtain ⟨l, t, hst, hl⟩ := List.eq_append_cons_of_mem hs
    have hlt : t.length < s.length := by
      rw [hst, List.length_append, List.length_cons]
      omega
    exact hst ▸ line l t hl (lineInduction unfinished line t)
  · exact unfinished s hs
termination_by s.length

theorem notMem_unfinished {current : List α} (hcurrent : e ∉ current) (s : List α) :
    e ∉ (splitLines e current s).2 := by
  induction s using lineInduction (e := e) generalizing current with
  | unfinished t ht => simp [splitLines_of_notMem ht, hcurrent, ht]
  | line l s hl ih => simpa [splitLines_line hl] using ih List.not_mem_nil

/-! ## Fields of a line -/

/-- Fields hold bytes of their line, and never the separator. -/
theorem mem_splitOn {c : α} {field : List α} (hfield : field ∈ s.splitOn e) (hc : c ∈ field) :
    c ∈ s ∧ c ≠ e := by
  induction s generalizing field with
  | nil =>
    rw [List.splitOn_nil, List.mem_singleton] at hfield
    exact absurd hc (hfield ▸ List.not_mem_nil)
  | cons d s ih =>
    obtain ⟨head, tail, hsplit⟩ := List.exists_cons_of_ne_nil (List.splitOn_ne_nil e s)
    rw [hsplit] at ih
    rw [List.splitOn_cons_eq_if_modifyHead, hsplit, List.modifyHead_cons] at hfield
    split_ifs at hfield with hd
    · rcases List.mem_cons.mp hfield with rfl | hfield
      · exact absurd hc List.not_mem_nil
      · exact (ih hfield hc).imp_left (List.mem_cons_of_mem _)
    · rcases List.mem_cons.mp hfield with rfl | hfield
      · rcases List.mem_cons.mp hc with rfl | hc
        · exact ⟨List.mem_cons_self, by simpa using hd⟩
        · exact (ih List.mem_cons_self hc).imp_left (List.mem_cons_of_mem _)
      · exact (ih (List.mem_cons_of_mem _ hfield) hc).imp_left (List.mem_cons_of_mem _)

/-- The last field is empty behind a separator only. -/
theorem getLast?_splitOn : (s.splitOn e).getLast? = some [] ↔ s = [] ∨ s.getLast? = some e := by
  by_cases he : e ∈ s
  · obtain ⟨l, t, hst, hl⟩ := List.eq_append_cons_of_mem (List.mem_reverse.mpr he)
    have hs : s = t.reverse ++ e :: l.reverse := by simpa using congrArg List.reverse hst
    have hfield : l.reverse.splitOn e = [l.reverse] :=
      List.splitOn_eq_singleton (by simpa using hl)
    rw [hs, List.splitOn_append_cons_self, hfield, List.getLast?_concat]
    cases l with
    | nil => simp
    | cons c l =>
      have hc : c ≠ e := fun heq => hl (heq ▸ List.mem_cons_self)
      have hlast : (t.reverse ++ e :: (c :: l).reverse).getLast? = some c := by
        rw [List.reverse_cons, ← List.cons_append, ← List.append_assoc, List.getLast?_concat]
      rw [hlast]
      simp [hc]
  · rw [List.splitOn_eq_singleton he]
    simp only [List.getLast?_singleton, Option.some.injEq]
    exact ⟨Or.inl, fun h => h.resolve_right fun hlast => he (List.mem_of_getLast? hlast)⟩

end Hamlog.Foundation
