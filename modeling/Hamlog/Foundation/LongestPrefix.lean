import Mathlib.Data.List.Basic
import Mathlib.Data.List.Infix

/-! # Longest prefix search

A table is searched for a text, then for the text without its last element, and
so on. The search finds what the table has for the longest prefix that it lists;
the empty prefix is never looked up.
-/
namespace Hamlog.Foundation
variable {α β : Type*}

/-- `p` is the longest prefix of a text that is listed. -/
structure LongestPrefix (listed : List α → Prop) (text p : List α) : Prop where
  ne_nil : p ≠ []
  isPrefix : p <+: text
  isListed : listed p
  longest : ∀ q, q ≠ [] → q <+: text → listed q → q.length ≤ p.length

theorem LongestPrefix.unique {listed : List α → Prop} {text p q : List α}
    (hp : LongestPrefix listed text p) (hq : LongestPrefix listed text q) : p = q := by
  have hlength : p.length = q.length :=
    le_antisymm (hq.longest p hp.ne_nil hp.isPrefix hp.isListed)
      (hp.longest q hq.ne_nil hq.isPrefix hq.isListed)
  exact (List.prefix_of_prefix_length_le hp.isPrefix hq.isPrefix hlength.le).eq_of_length hlength

theorem LongestPrefix.congr {listed others : List α → Prop} {text p : List α}
    (h : ∀ q, q ≠ [] → q <+: text → (listed q ↔ others q)) :
    LongestPrefix listed text p ↔ LongestPrefix others text p := by
  constructor
  · rintro ⟨hne, hprefix, hlisted, hlongest⟩
    exact ⟨hne, hprefix, (h p hne hprefix).mp hlisted,
      fun q hq hpre hother => hlongest q hq hpre ((h q hq hpre).mpr hother)⟩
  · rintro ⟨hne, hprefix, hlisted, hlongest⟩
    exact ⟨hne, hprefix, (h p hne hprefix).mpr hlisted,
      fun q hq hpre hother => hlongest q hq hpre ((h q hq hpre).mp hother)⟩

/-- The search; the first argument bounds its turns. -/
def shrinkingSearch (find : List α → Option β) : ℕ → List α → Option β
  | 0, _ => none
  | turns + 1, text =>
    if text.isEmpty then none
    else
      match find text with
      | some found => some found
      | none => shrinkingSearch find turns text.dropLast

def longestMatch (find : List α → Option β) (text : List α) : Option β :=
  shrinkingSearch find text.length text

section Search
variable {find : List α → Option β} {text : List α} {turns : ℕ}

/-- A prefix is the text or one of the text without its last element. -/
theorem prefix_dropLast {p : List α} (h : p <+: text) (hne : p ≠ text) : p <+: text.dropLast := by
  rcases List.eq_nil_or_concat text with rfl | ⟨front, a, rfl⟩
  · exact absurd (List.prefix_nil.mp h) hne
  · rw [List.concat_eq_append] at h hne ⊢
    rw [List.dropLast_concat]
    exact (List.prefix_concat_iff.mp h).resolve_left hne

theorem shrinkingSearch_none (hturns : text.length ≤ turns)
    (h : shrinkingSearch find turns text = none) :
    ∀ p, p ≠ [] → p <+: text → find p = none := by
  intro p hp hprefix
  induction turns generalizing text with
  | zero =>
    obtain rfl := List.length_eq_zero_iff.mp (Nat.le_zero.mp hturns)
    exact absurd (List.prefix_nil.mp hprefix) hp
  | succ turns ih =>
    rw [shrinkingSearch] at h
    split_ifs at h with hempty
    · obtain rfl := List.isEmpty_iff.mp hempty
      exact absurd (List.prefix_nil.mp hprefix) hp
    · cases hfind : find text with
      | some found => simp [hfind] at h
      | none =>
        by_cases heq : p = text
        · rw [heq, hfind]
        · have hlength : text.dropLast.length ≤ turns := by
            rw [List.length_dropLast]
            omega
          exact ih hlength (by simpa [hfind] using h) (prefix_dropLast hprefix heq)

theorem shrinkingSearch_some (hturns : text.length ≤ turns) {found : β}
    (h : shrinkingSearch find turns text = some found) :
    ∃ p, LongestPrefix (fun q => (find q).isSome) text p ∧ find p = some found := by
  induction turns generalizing text with
  | zero => simp [shrinkingSearch] at h
  | succ turns ih =>
    rw [shrinkingSearch] at h
    split_ifs at h with hempty
    cases hfind : find text with
    | some other =>
      obtain rfl : other = found := by simpa [hfind] using h
      have hne : text ≠ [] := by simpa using hempty
      exact ⟨text, ⟨hne, List.prefix_rfl, by simp [hfind], fun q _ hq _ => hq.length_le⟩, hfind⟩
    | none =>
      have hlength : text.dropLast.length ≤ turns := by
        rw [List.length_dropLast]
        omega
      obtain ⟨p, hp, hfound⟩ := ih hlength (by simpa [hfind] using h)
      have hprefix : p <+: text := hp.isPrefix.trans (List.dropLast_prefix text)
      refine ⟨p, ⟨hp.ne_nil, hprefix, hp.isListed, ?_⟩, hfound⟩
      intro q hq hprefix hlisted
      refine hp.longest q hq (prefix_dropLast hprefix ?_) hlisted
      rintro rfl
      simp [hfind] at hlisted

theorem longestMatch_eq_none_iff :
    longestMatch find text = none ↔ ∀ p, p ≠ [] → p <+: text → find p = none := by
  refine ⟨shrinkingSearch_none le_rfl, fun h => ?_⟩
  cases hmatch : longestMatch find text with
  | none => rfl
  | some found =>
    obtain ⟨p, hp, hfound⟩ := shrinkingSearch_some le_rfl hmatch
    rw [h p hp.ne_nil hp.isPrefix] at hfound
    exact absurd hfound (by simp)

/-- The search finds what the table has for the longest listed prefix. -/
theorem longestMatch_eq_some_iff {found : β} : longestMatch find text = some found ↔
    ∃ p, LongestPrefix (fun q => (find q).isSome) text p ∧ find p = some found := by
  refine ⟨shrinkingSearch_some le_rfl, fun ⟨p, hp, hfound⟩ => ?_⟩
  cases hmatch : longestMatch find text with
  | none =>
    rw [longestMatch_eq_none_iff.mp hmatch p hp.ne_nil hp.isPrefix] at hfound
    exact absurd hfound (by simp)
  | some other =>
    obtain ⟨q, hq, hother⟩ := shrinkingSearch_some le_rfl hmatch
    rw [hp.unique hq, hother] at hfound
    exact hfound

/-- Only the prefixes of the text are looked up. -/
theorem longestMatch_congr {others : List α → Option β}
    (h : ∀ p, p ≠ [] → p <+: text → find p = others p) :
    longestMatch find text = longestMatch others text := by
  cases hmatch : longestMatch others text with
  | none =>
    refine longestMatch_eq_none_iff.mpr fun p hp hprefix => ?_
    rw [h p hp hprefix, longestMatch_eq_none_iff.mp hmatch p hp hprefix]
  | some found =>
    obtain ⟨p, hp, hfound⟩ := longestMatch_eq_some_iff.mp hmatch
    refine longestMatch_eq_some_iff.mpr ⟨p, ?_, (h p hp.ne_nil hp.isPrefix).trans hfound⟩
    exact (LongestPrefix.congr fun q hq hprefix => by rw [h q hq hprefix]).mpr hp

end Search

end Hamlog.Foundation
