import Mathlib.Data.List.Basic
import Mathlib.Tactic

/-! # Symbol-at-a-time decoders

A decoder reads one symbol at a time, either refusing it with an error or
moving to its next state. A state can be finished: it then holds a complete
message, and `restart` gives the state from which the next message is read.
`parse` stops at the first finished state; `feed` reads a whole stream.
-/
namespace Hamlog.Foundation

structure Decoder (σ α ε : Type*) where
  step : σ → α → Except ε σ
  finished : σ → Bool
  restart : σ → σ

/-- How one parse ends. The rest of a failed parse starts with the refused symbol, and the state
is the one that refused it. -/
inductive Outcome (σ α ε : Type*) where
  | more (s : σ)
  | done (s : σ) (rest : List α)
  | fail (s : σ) (e : ε) (rest : List α)

/-- The state in which a parse ends. -/
def Outcome.state {σ α ε : Type*} : Outcome σ α ε → σ
  | .more s => s
  | .done s _ => s
  | .fail s _ _ => s

namespace Decoder
variable {σ α ε : Type*} (D : Decoder σ α ε)

def parse : σ → List α → Outcome σ α ε
  | s, [] => .more s
  | s, a :: as =>
    match D.step s a with
    | .error e => .fail s e (a :: as)
    | .ok t => if D.finished t then .done t as else parse t as

@[simp] theorem parse_nil (s : σ) : D.parse s [] = .more s := rfl

theorem parse_cons_more {s t : σ} {a : α} {as : List α} (h : D.step s a = .ok t)
    (hf : D.finished t = false) : D.parse s (a :: as) = D.parse t as := by
  simp [parse, h, hf]

theorem parse_cons_done {s t : σ} {a : α} {as : List α} (h : D.step s a = .ok t)
    (hf : D.finished t = true) : D.parse s (a :: as) = .done t as := by
  simp [parse, h, hf]

theorem parse_cons_fail {s : σ} {e : ε} {a : α} {as : List α} (h : D.step s a = .error e) :
    D.parse s (a :: as) = .fail s e (a :: as) := by
  simp [parse, h]

/-- More input continues an unfinished parse and only lengthens the rest of an ended one. -/
theorem parse_append (s : σ) (xs ys : List α) :
    D.parse s (xs ++ ys) =
      match D.parse s xs with
      | .more t => D.parse t ys
      | .done t rest => .done t (rest ++ ys)
      | .fail t e rest => .fail t e (rest ++ ys) := by
  induction xs generalizing s with
  | nil => rfl
  | cons a as ih =>
    simp only [List.cons_append, parse]
    cases D.step s a with
    | error e => rfl
    | ok t =>
      by_cases hf : D.finished t = true
      · simp [hf]
      · simpa [hf] using ih t

theorem parse_append_more {s t : σ} {xs : List α} (h : D.parse s xs = .more t) (ys : List α) :
    D.parse s (xs ++ ys) = D.parse t ys := by
  rw [parse_append, h]

theorem parse_append_done {s t : σ} {xs rest : List α} (h : D.parse s xs = .done t rest)
    (ys : List α) : D.parse s (xs ++ ys) = .done t (rest ++ ys) := by
  rw [parse_append, h]

/-- Composition of two silent stretches of input. -/
theorem more_trans {s t u : σ} {xs ys : List α} (h : D.parse s xs = .more t)
    (k : D.parse t ys = .more u) : D.parse s (xs ++ ys) = .more u := by
  rw [D.parse_append_more h, k]

/-- A parse that ends inside the second part read the first part silently. -/
theorem more_of_done_append {s t : σ} {xs ys rest : List α}
    (h : D.parse s (xs ++ ys) = .done t rest) (hlen : rest.length < ys.length) :
    ∃ u, D.parse s xs = .more u ∧ D.parse u ys = .done t rest := by
  rw [parse_append] at h
  cases hx : D.parse s xs with
  | more u => exact ⟨u, rfl, by simpa [hx] using h⟩
  | done u r =>
    rw [hx] at h
    simp only [Outcome.done.injEq] at h
    rw [← h.2] at hlen
    simp at hlen
  | fail u e r => simp [hx] at h

theorem done_rest_length {s t : σ} {xs rest : List α} (h : D.parse s xs = .done t rest) :
    rest.length < xs.length := by
  induction xs generalizing s with
  | nil => simp at h
  | cons a as ih =>
    cases hs : D.step s a with
    | error e => simp [D.parse_cons_fail hs] at h
    | ok u =>
      cases hf : D.finished u with
      | true =>
        rw [D.parse_cons_done hs hf, Outcome.done.injEq] at h
        simp [← h.2]
      | false =>
        rw [D.parse_cons_more hs hf] at h
        exact Nat.lt_succ_of_lt (ih h)

/-- A finished message was read from the part of the input in front of the rest. -/
theorem done_split {s t : σ} {xs rest : List α} (h : D.parse s xs = .done t rest) :
    ∃ ys, xs = ys ++ rest ∧ D.parse s ys = .done t [] := by
  induction xs generalizing s with
  | nil => simp at h
  | cons a as ih =>
    cases hs : D.step s a with
    | error e => simp [D.parse_cons_fail hs] at h
    | ok u =>
      cases hf : D.finished u with
      | true =>
        rw [D.parse_cons_done hs hf, Outcome.done.injEq] at h
        exact ⟨[a], by simp [h.2], by rw [D.parse_cons_done hs hf, h.1]⟩
      | false =>
        rw [D.parse_cons_more hs hf] at h
        obtain ⟨ys, rfl, hys⟩ := ih h
        exact ⟨a :: ys, rfl, by rw [D.parse_cons_more hs hf, hys]⟩

theorem more_unfinished {s t : σ} {xs : List α} (hs : D.finished s = false)
    (h : D.parse s xs = .more t) : D.finished t = false := by
  induction xs generalizing s with
  | nil =>
    rw [parse_nil, Outcome.more.injEq] at h
    exact h ▸ hs
  | cons a as ih =>
    cases hu : D.step s a with
    | error e => simp [D.parse_cons_fail hu] at h
    | ok u =>
      cases hf : D.finished u with
      | true => simp [D.parse_cons_done hu hf] at h
      | false => exact ih hf (D.parse_cons_more hu hf ▸ h)

theorem fail_unfinished {s t : σ} {e : ε} {xs rest : List α} (hs : D.finished s = false)
    (h : D.parse s xs = .fail t e rest) : D.finished t = false := by
  induction xs generalizing s with
  | nil => simp at h
  | cons a as ih =>
    cases hu : D.step s a with
    | error e' =>
      rw [D.parse_cons_fail hu, Outcome.fail.injEq] at h
      exact h.1 ▸ hs
    | ok u =>
      cases hf : D.finished u with
      | true => simp [D.parse_cons_done hu hf] at h
      | false => exact ih hf (D.parse_cons_more hu hf ▸ h)

/-- The last symbol of a finished message: what is in front of it is read silently. -/
theorem done_last {s t : σ} {xs rest : List α} (hs : D.finished s = false)
    (h : D.parse s xs = .done t rest) :
    D.finished t = true ∧ ∃ front a u, xs = front ++ a :: rest ∧ D.parse s front = .more u ∧
      D.finished u = false ∧ D.step u a = .ok t := by
  induction xs generalizing s with
  | nil => simp at h
  | cons a as ih =>
    cases hu : D.step s a with
    | error e => simp [D.parse_cons_fail hu] at h
    | ok u =>
      cases hf : D.finished u with
      | true =>
        rw [D.parse_cons_done hu hf, Outcome.done.injEq] at h
        exact ⟨h.1 ▸ hf, [], a, s, by simp [h.2], rfl, hs, h.1 ▸ hu⟩
      | false =>
        rw [D.parse_cons_more hu hf] at h
        obtain ⟨ht, front, b, v, rfl, hfront, hv, hstep⟩ := ih hf h
        exact ⟨ht, a :: front, b, v, rfl, (D.parse_cons_more hu hf).trans hfront, hv, hstep⟩

/-- The symbol at which a parse fails: what is in front of it is read silently. -/
theorem fail_last {s t : σ} {e : ε} {xs rest : List α} (h : D.parse s xs = .fail t e rest) :
    ∃ front a as, rest = a :: as ∧ xs = front ++ rest ∧ D.parse s front = .more t ∧
      D.step t a = .error e := by
  induction xs generalizing s with
  | nil => simp at h
  | cons a as ih =>
    cases hu : D.step s a with
    | error e' =>
      rw [D.parse_cons_fail hu, Outcome.fail.injEq] at h
      obtain ⟨rfl, rfl, rfl⟩ := h
      exact ⟨[], a, as, rfl, rfl, rfl, hu⟩
    | ok u =>
      cases hf : D.finished u with
      | true => simp [D.parse_cons_done hu hf] at h
      | false =>
        rw [D.parse_cons_more hu hf] at h
        obtain ⟨front, b, bs, hrest, rfl, hfront, hstep⟩ := ih h
        exact ⟨a :: front, b, bs, hrest, rfl, (D.parse_cons_more hu hf).trans hfront, hstep⟩

/-- A finished message was finished by a step from an unfinished state. -/
theorem done_step {s t : σ} {xs rest : List α} (hs : D.finished s = false)
    (h : D.parse s xs = .done t rest) :
    D.finished t = true ∧ ∃ u a, D.finished u = false ∧ D.step u a = .ok t := by
  obtain ⟨ht, front, a, u, -, -, hu, hstep⟩ := D.done_last hs h
  exact ⟨ht, u, a, hu, hstep⟩

/-- What every step keeps, a whole parse keeps, however it ends. -/
theorem parse_invariant (I : σ → Prop) (hstep : ∀ s a t, I s → D.step s a = .ok t → I t)
    {s : σ} (hs : I s) (xs : List α) : I (D.parse s xs).state := by
  induction xs generalizing s with
  | nil => exact hs
  | cons a as ih =>
    cases hu : D.step s a with
    | error e => rwa [D.parse_cons_fail hu]
    | ok u =>
      have hu' := hstep s a u hs hu
      cases hf : D.finished u with
      | true => rwa [D.parse_cons_done hu hf]
      | false =>
        rw [D.parse_cons_more hu hf]
        exact ih hu'

/-- Reading a run of symbols into an accumulator. The state after the symbols `w` of the run is
`f w`, and it is enough that every prefix of the run is extended by its next symbol. -/
theorem parse_accumulate (f : List α → σ) (run : List α)
    (h : ∀ w a v, run = w ++ a :: v →
      D.step (f w) a = .ok (f (w ++ [a])) ∧ D.finished (f (w ++ [a])) = false) :
    D.parse (f []) run = .more (f run) := by
  have aux (w v : List α) (hrun : run = w ++ v) : D.parse (f w) v = .more (f run) := by
    induction v generalizing w with
    | nil => simp [hrun]
    | cons a v ih =>
      obtain ⟨hs, hf⟩ := h w a v hrun
      rw [D.parse_cons_more hs hf]
      exact ih (w ++ [a]) (by simp [hrun])
  exact aux [] run rfl

/-! ## Whole streams -/

/-- The messages of a stream, in order, and the state left at its end or the error that stopped
the reading. -/
def feed : σ → List α → List σ × Except ε σ
  | s, [] => ([], .ok s)
  | s, a :: as =>
    match D.step s a with
    | .error e => ([], .error e)
    | .ok t =>
      if D.finished t then
        let r := feed (D.restart t) as
        (t :: r.1, r.2)
      else feed t as

@[simp] theorem feed_nil (s : σ) : D.feed s [] = ([], .ok s) := rfl

/-- One parse gives the next message of the stream, or none when the input runs out. -/
theorem feed_eq_parse (s : σ) (xs : List α) :
    D.feed s xs =
      match D.parse s xs with
      | .more t => ([], .ok t)
      | .done t rest => (t :: (D.feed (D.restart t) rest).1, (D.feed (D.restart t) rest).2)
      | .fail _ e _ => ([], .error e) := by
  induction xs generalizing s with
  | nil => rfl
  | cons a as ih =>
    simp only [feed, parse]
    cases D.step s a with
    | error e => rfl
    | ok t =>
      by_cases hf : D.finished t = true
      · simp [hf]
      · simpa [hf] using ih t

theorem feed_of_more {s t : σ} {xs : List α} (h : D.parse s xs = .more t) :
    D.feed s xs = ([], .ok t) := by
  rw [feed_eq_parse, h]

theorem parse_of_feed_nil {s t : σ} {xs : List α} (h : D.feed s xs = ([], .ok t)) :
    D.parse s xs = .more t := by
  rw [feed_eq_parse] at h
  cases hp : D.parse s xs with
  | more u => simpa [hp] using h
  | done u rest => simp [hp] at h
  | fail u e rest => simp [hp] at h

/-- The first message of a stream, and the stream behind it. -/
theorem parse_of_feed_cons {s m : σ} {ms : List σ} {xs : List α} {e : Except ε σ}
    (h : D.feed s xs = (m :: ms, e)) :
    ∃ rest, D.parse s xs = .done m rest ∧ D.feed (D.restart m) rest = (ms, e) := by
  rw [feed_eq_parse] at h
  cases hp : D.parse s xs with
  | more u => simp [hp] at h
  | done u rest =>
    simp only [hp, Prod.mk.injEq, List.cons.injEq] at h
    obtain ⟨⟨rfl, hms⟩, he⟩ := h
    exact ⟨rest, rfl, Prod.ext hms he⟩
  | fail u e rest => simp [hp] at h

/-- However a stream is cut in two, the state carries the reading across the cut. -/
theorem feed_append {s t : σ} {xs : List α} {ms : List σ} (h : D.feed s xs = (ms, .ok t))
    (ys : List α) : D.feed s (xs ++ ys) = (ms ++ (D.feed t ys).1, (D.feed t ys).2) := by
  induction xs generalizing s ms with
  | nil =>
    simp only [feed_nil, Prod.mk.injEq, Except.ok.injEq] at h
    simp [← h.1, h.2]
  | cons a as ih =>
    simp only [List.cons_append, feed] at h ⊢
    cases hs : D.step s a with
    | error e => simp [hs] at h
    | ok u =>
      cases hf : D.finished u with
      | true =>
        simp only [hs, hf, if_true, Prod.mk.injEq] at h ⊢
        have hu : D.feed (D.restart u) as = ((D.feed (D.restart u) as).1, .ok t) :=
          Prod.ext rfl h.2
        rw [ih hu, ← h.1]
        simp
      | false =>
        simp only [hs, hf, Bool.false_eq_true, if_false] at h ⊢
        exact ih h

/-- An error ends the reading, whatever comes behind it. -/
theorem feed_append_error {s : σ} {xs : List α} {e : ε} (h : (D.feed s xs).2 = .error e)
    (ys : List α) : (D.feed s (xs ++ ys)).2 = .error e := by
  induction xs generalizing s with
  | nil => cases h
  | cons a as ih =>
    simp only [List.cons_append, feed] at h ⊢
    cases hs : D.step s a with
    | error e' => simpa [hs] using h
    | ok u =>
      cases hf : D.finished u with
      | true =>
        simp only [hs, hf, if_true] at h ⊢
        exact ih h
      | false =>
        simp only [hs, hf, Bool.false_eq_true, if_false] at h ⊢
        exact ih h

theorem feed_prefix_ok {s t : σ} {xs ys : List α} {ms : List σ}
    (h : D.feed s (xs ++ ys) = (ms, .ok t)) : ∃ ns u, D.feed s xs = (ns, .ok u) := by
  induction xs generalizing s ms with
  | nil => exact ⟨[], s, rfl⟩
  | cons a as ih =>
    simp only [List.cons_append, feed] at h ⊢
    cases hs : D.step s a with
    | error e => simp [hs] at h
    | ok u =>
      cases hf : D.finished u with
      | true =>
        simp only [hs, hf, if_true, Prod.mk.injEq] at h ⊢
        have hu : D.feed (D.restart u) (as ++ ys) =
            ((D.feed (D.restart u) (as ++ ys)).1, .ok t) := Prod.ext rfl h.2
        obtain ⟨ns, v, hv⟩ := ih hu
        exact ⟨u :: ns, v, by simp [hv]⟩
      | false =>
        simp only [hs, hf, Bool.false_eq_true, if_false] at h ⊢
        exact ih h

/-! ## Guarded decoders -/

/-- The first decoder makes the steps of the second or stops with the error `e`. -/
def Guards (D E : Decoder σ α ε) (e : ε) : Prop :=
  D.finished = E.finished ∧ ∀ s a, D.step s a = E.step s a ∨ D.step s a = .error e

theorem Guards.parse {D E : Decoder σ α ε} {e : ε} (h : Guards D E e) (s : σ) (xs : List α) :
    D.parse s xs = E.parse s xs ∨ ∃ t rest, D.parse s xs = .fail t e rest := by
  induction xs generalizing s with
  | nil => exact .inl rfl
  | cons a as ih =>
    rcases h.2 s a with hs | hs
    · cases hE : E.step s a with
      | error e' =>
        rw [D.parse_cons_fail (hs.trans hE), E.parse_cons_fail hE]
        exact .inl rfl
      | ok t =>
        cases hf : E.finished t with
        | true =>
          rw [D.parse_cons_done (hs.trans hE) (h.1 ▸ hf), E.parse_cons_done hE hf]
          exact .inl rfl
        | false =>
          rw [D.parse_cons_more (hs.trans hE) (h.1 ▸ hf), E.parse_cons_more hE hf]
          exact ih t
    · exact .inr ⟨s, a :: as, D.parse_cons_fail hs⟩

theorem Guards.feed {D E : Decoder σ α ε} {e : ε} (h : Guards D E e) (hr : D.restart = E.restart)
    (s : σ) (xs : List α) : D.feed s xs = E.feed s xs ∨ (D.feed s xs).2 = .error e := by
  induction xs generalizing s with
  | nil => exact .inl rfl
  | cons a as ih =>
    simp only [Decoder.feed]
    rcases h.2 s a with hs | hs
    · cases hE : E.step s a with
      | error e' =>
        rw [hs, hE]
        exact .inl rfl
      | ok t =>
        rw [hs, hE, h.1, hr]
        cases hf : E.finished t with
        | true =>
          simp only [hf, if_true]
          rcases ih (E.restart t) with ht | ht
          · exact .inl (by rw [ht])
          · exact .inr ht
        | false =>
          simp only [hf, Bool.false_eq_true, if_false]
          exact ih t
    · exact .inr (by rw [hs])

/-- What the unguarded decoder reads silently up to a symbol that the guarded one refuses, the
guarded one refuses there or before. -/
theorem Guards.feed_error {D E : Decoder σ α ε} {e : ε} (h : Guards D E e)
    (hr : D.restart = E.restart) {s t : σ} {xs : List α} {ms : List σ}
    (hE : E.feed s xs = (ms, .ok t)) {a : α} (ha : D.step t a = .error e) (ys : List α) :
    (D.feed s (xs ++ a :: ys)).2 = .error e := by
  rcases h.feed hr s xs with hD | hD
  · rw [D.feed_append (hD.trans hE)]
    simp [Decoder.feed, ha]
  · exact D.feed_append_error hD _

end Decoder
end Hamlog.Foundation
