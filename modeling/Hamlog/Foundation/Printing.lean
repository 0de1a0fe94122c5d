import Hamlog.Foundation.Cursor

/-! # Printing into a memory block

A printer holds a block and a cursor, and stores what it prints from the cursor
on, with checked accesses. A block that was filled from its front is described
by the text in front of the cursor, so that what a sequence of printers writes
is the sequence of their texts as long as there is room for it.
-/
namespace Hamlog.Foundation

structure Printer (α : Type) where
  mem : List α
  ptr : ℤ := 0

namespace Printer
variable {α β : Type}

/-- `*ptr++ = c`. -/
def put (s : Printer α) (c : α) : Except WalkFault (Printer α) := do
  return ⟨← Cursor.write s.mem s.ptr c, s.ptr + 1⟩

def putAll (s : Printer α) (text : List α) : Except WalkFault (Printer α) := text.foldlM put s

/-- The text is stored with the terminator `e` behind it, on which the cursor comes to stand. -/
def print (e : α) (s : Printer α) (text : List α) : Except WalkFault (Printer α) := do
  let t ← s.putAll text
  return ⟨← Cursor.write t.mem t.ptr e, t.ptr⟩

/-- The block of `n` cells holds the text in front of the cursor. -/
structure Filled (n : ℕ) (text : List α) (s : Printer α) : Prop where
  ptr : s.ptr = text.length
  size : s.mem.length = n
  front : ∃ rest, s.mem = text ++ rest

/-- The terminator stands behind the text. -/
structure Printed (n : ℕ) (e : α) (text : List α) (s : Printer α) : Prop extends
    Filled n text s where
  terminated : ∃ rest, s.mem = text ++ e :: rest

theorem filled_start (mem : List α) : Filled mem.length [] ⟨mem, 0⟩ :=
  ⟨rfl, rfl, mem, rfl⟩

section Steps
variable {n : ℕ} {text : List α} {s : Printer α}

/-- A cell in front of which the block is filled is there as long as there is room. -/
theorem Filled.write (h : Filled n text s) (hroom : text.length < n) (c : α) :
    ∃ rest, Cursor.write s.mem s.ptr c = .ok (text ++ c :: rest) ∧
      (text ++ c :: rest).length = n := by
  obtain ⟨hptr, hsize, rest, hmem⟩ := h
  rw [hmem, List.length_append] at hsize
  obtain ⟨d, rest, rfl⟩ := List.exists_cons_of_length_pos (show 0 < rest.length by omega)
  refine ⟨rest, ?_, by simpa using hsize⟩
  rw [hmem, hptr, Cursor.write_length]

theorem Filled.put (h : Filled n text s) (hroom : text.length < n) (c : α) :
    ∃ t, s.put c = .ok t ∧ Filled n (text ++ [c]) t := by
  obtain ⟨rest, hwrite, hsize⟩ := h.write hroom c
  refine ⟨⟨text ++ c :: rest, s.ptr + 1⟩, ?_, ?_, hsize, rest, by simp⟩
  · simp only [Printer.put, hwrite, bind, Except.bind, pure, Except.pure]
  · simp [h.ptr]

end Steps

/-! ## Printers as writers of texts -/

/-- The printer writes the text behind the one that is there, as long as there is room; `P` says
what it keeps to. -/
def Writes (n : ℕ) (P : List α → Printer α → Prop)
    (f : Printer α → Except WalkFault (Printer α)) (text : List α) : Prop :=
  ∀ front s, P front s → (front ++ text).length < n →
    ∃ t, f s = .ok t ∧ P (front ++ text) t

section Writers
variable {n : ℕ} {P : List α → Printer α → Prop} {f g : Printer α → Except WalkFault (Printer α)}
  {text more : List α}

theorem writes_pure : Writes n P pure [] := by
  intro front s hs hroom
  rw [List.append_nil]
  exact ⟨s, rfl, hs⟩

/-- Two printers one after the other write their texts one behind the other. -/
theorem Writes.andThen (hf : Writes n P f text) (hg : Writes n P g more) :
    Writes n P (fun s => f s >>= g) (text ++ more) := by
  intro front s hs hroom
  rw [← List.append_assoc] at hroom ⊢
  have hfirst : (front ++ text).length < n := by
    rw [List.length_append] at hroom
    omega
  obtain ⟨t, hstep, ht⟩ := hf front s hs hfirst
  obtain ⟨u, hnext, hu⟩ := hg (front ++ text) t ht hroom
  refine ⟨u, ?_, hu⟩
  change f s >>= g = .ok u
  rw [hstep]
  exact hnext

theorem writes_foldlM {step : Printer α → β → Except WalkFault (Printer α)} {piece : β → List α}
    (hstep : ∀ b, Writes n P (step · b) (piece b)) (bs : List β) :
    Writes n P (fun s => bs.foldlM step s) (bs.flatMap piece) := by
  induction bs with
  | nil => exact writes_pure
  | cons b bs ih =>
    simp only [List.foldlM_cons, List.flatMap_cons]
    exact (hstep b).andThen ih

theorem writes_put (c : α) : Writes n (Filled n) (put · c) [c] := by
  intro front s hs hroom
  rw [List.length_append, List.length_singleton] at hroom
  exact hs.put (by omega) c

theorem writes_putAll (text : List α) : Writes n (Filled n) (putAll · text) text := by
  have hall := writes_foldlM (n := n) (fun c : α => writes_put c) text
  rwa [List.flatMap_singleton'] at hall

/-- Of what is there, `print` needs no terminator. -/
theorem Filled.print {s : Printer α} (h : Filled n text s) (e : α) (more : List α)
    (hroom : (text ++ more).length < n) :
    ∃ t, s.print e more = .ok t ∧ Printed n e (text ++ more) t := by
  obtain ⟨t, hput, ht⟩ := writes_putAll more text s h hroom
  obtain ⟨rest, hwrite, hsize⟩ := ht.write hroom e
  refine ⟨⟨text ++ more ++ e :: rest, t.ptr⟩, ?_, ⟨ht.ptr, hsize, _, rfl⟩, rest, rfl⟩
  simp only [Printer.print, hput, hwrite, bind, Except.bind, pure, Except.pure]

theorem writes_print (e : α) (text : List α) :
    Writes n (Printed n e) (print e · text) text :=
  fun _ _ hs hroom => hs.toFilled.print e text hroom

theorem writes_printFilled (e : α) (text : List α) :
    Writes n (Filled n) (print e · text) text := by
  intro front s hs hroom
  obtain ⟨t, hprint, ht⟩ := hs.print e text hroom
  exact ⟨t, hprint, ht.toFilled⟩

/-- What a block holds when a first text and further ones are printed from its front on. -/
theorem Writes.fromFront {mem : List α} {e : α} (hf : Writes mem.length (Printed mem.length e) f
    more) (first : List α) (hroom : (first ++ more).length < mem.length) :
    ∃ rest, (do return (← f (← print e ⟨mem, 0⟩ first)).mem) =
      Except.ok (first ++ more ++ e :: rest) := by
  have hfirst : ([] ++ first).length < mem.length := by
    rw [List.length_append] at hroom
    rw [List.nil_append]
    omega
  obtain ⟨s, hprint, hs⟩ := (filled_start mem).print e first hfirst
  obtain ⟨t, hnext, -, rest, hmem⟩ := hf first s hs hroom
  refine ⟨rest, ?_⟩
  rw [hprint, ← hmem]
  exact congrArg (Except.map Printer.mem) hnext

end Writers

end Printer
end Hamlog.Foundation
