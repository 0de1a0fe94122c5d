import Mathlib.Data.List.Basic
import Mathlib.Tactic.SplitIfs

/-! # Runs of event-driven systems

A system reacts to events. An event that is not enabled cannot happen; an
enabled event whose step is `none` crashes the program. A run is a list of
events, each of which was enabled, met a guard and did not crash.
-/
namespace Hamlog.Foundation

structure System (σ ι : Type*) where
  start : σ
  enabled : σ → ι → Bool
  step : σ → ι → Option σ

namespace System
variable {σ ι : Type*} (S : System σ ι) (guard : σ → ι → Bool)

/-- The runs from the start whose events all meet the guard, with the state they lead to. -/
inductive Run : List ι → σ → Prop where
  | start : Run [] S.start
  | next {past : List ι} {s t : σ} {a : ι} (run : Run past s) (enabled : S.enabled s a)
      (allowed : guard s a) (step : S.step s a = some t) : Run (past ++ [a]) t

variable {S guard}

/-- What holds at the start and is kept by every step holds at the end of every run. The invariant
may speak about the events so far. -/
theorem Run.invariant {I : List ι → σ → Prop} (h0 : I [] S.start)
    (hstep : ∀ {past s a t}, I past s → S.enabled s a → guard s a → S.step s a = some t →
      I (past ++ [a]) t) {past : List ι} {s : σ} (h : Run S guard past s) : I past s := by
  induction h with
  | start => exact h0
  | next _ enabled allowed step ih => exact hstep ih enabled allowed step

/-- A run also meets every weaker guard. -/
theorem Run.mono {weaker : σ → ι → Bool} (h : ∀ s a, guard s a → weaker s a) {past : List ι} {s : σ}
    (hrun : Run S guard past s) : Run S weaker past s := by
  induction hrun with
  | start => exact .start
  | next _ enabled allowed step ih => exact ih.next enabled (h _ _ allowed) step

variable (S guard)

/-- The state behind a list of events, if it is a run. -/
def exec : σ → List ι → Option σ
  | s, [] => some s
  | s, a :: events =>
    if S.enabled s a && guard s a then (S.step s a).bind (exec · events) else none

variable {S guard}

theorem Run.append_exec {past events : List ι} {s t : σ} (h : Run S guard past s)
    (hexec : exec S guard s events = some t) : Run S guard (past ++ events) t := by
  induction events generalizing past s with
  | nil =>
    simp only [exec, Option.some.injEq] at hexec
    rwa [List.append_nil, ← hexec]
  | cons a events ih =>
    rw [exec] at hexec
    split_ifs at hexec with hguard
    rw [Bool.and_eq_true] at hguard
    cases hstep : S.step s a with
    | none => simp [hstep] at hexec
    | some u =>
      rw [hstep] at hexec
      simpa using ih (h.next hguard.1 hguard.2 hstep) hexec

theorem exec_append (past events : List ι) (s : σ) :
    exec S guard s (past ++ events) = (exec S guard s past).bind (exec S guard · events) := by
  induction past generalizing s with
  | nil => rfl
  | cons a past ih =>
    rw [List.cons_append, exec, exec]
    split_ifs
    · cases S.step s a with
      | none => rfl
      | some t => exact ih t
    · rfl

theorem Run.exec_eq {past : List ι} {s : σ} (h : Run S guard past s) :
    exec S guard S.start past = some s := by
  induction h with
  | start => rfl
  | next _ enabled allowed step ih =>
    rw [exec_append, ih, Option.bind_some, exec, if_pos (by rw [enabled, allowed]; rfl), step]
    rfl

/-- The events of a run determine the state that it leads to. -/
theorem Run.unique {past : List ι} {s t : σ} (h : Run S guard past s) (h' : Run S guard past t) :
    s = t :=
  Option.some.inj (h.exec_eq.symm.trans h'.exec_eq)

theorem run_of_exec {events : List ι} {s : σ} (h : exec S guard S.start events = some s) :
    Run S guard events s :=
  Run.start.append_exec h

/-- A check of the state behind a list of events. -/
theorem exists_run_of_exec {events : List ι} {check : σ → Bool}
    (h : (exec S guard S.start events).any check = true) :
    ∃ s, Run S guard events s ∧ check s = true := by
  cases hexec : exec S guard S.start events with
  | none => simp [hexec] at h
  | some s => exact ⟨s, run_of_exec hexec, by simpa [hexec] using h⟩

end System
end Hamlog.Foundation
