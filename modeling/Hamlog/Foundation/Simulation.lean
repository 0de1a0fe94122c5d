import Hamlog.Foundation.Runs

/-! # Simulations between event-driven systems

A system simulates another one when every step of the other is matched by a
finite run of its own. The relation may speak about the events of both so far,
so that what is observed of one history can be compared with the other.
-/
namespace Hamlog.Foundation.System

variable {σ ι τ κ : Type*} {S : System σ ι} {T : System τ κ}
  {guard : σ → ι → Bool} {guard' : τ → κ → Bool}

/-- Every step of `S` is matched by a finite run of `T`. -/
structure Simulation (S : System σ ι) (T : System τ κ) (guard : σ → ι → Bool)
    (guard' : τ → κ → Bool) (R : List ι → List κ → σ → τ → Prop) : Prop where
  start : R [] [] S.start T.start
  step : ∀ {past past' s t a s'}, R past past' s t → S.enabled s a → guard s a →
    S.step s a = some s' →
    ∃ events t', exec T guard' t events = some t' ∧ R (past ++ [a]) (past' ++ events) s' t'

/-- A run of the simulated system is a run of the other one. -/
theorem Simulation.run {R : List ι → List κ → σ → τ → Prop}
    (h : Simulation S T guard guard' R) {past : List ι} {s : σ} (hrun : Run S guard past s) :
    ∃ past' t, Run T guard' past' t ∧ R past past' s t := by
  refine Run.invariant (I := fun past s => ∃ past' t, Run T guard' past' t ∧ R past past' s t)
    ⟨[], T.start, .start, h.start⟩ ?_ hrun
  rintro past s a s' ⟨past', t, hrun', hrel⟩ henabled hallowed hstep
  obtain ⟨events, t', hexec, hrel'⟩ := h.step hrel henabled hallowed hstep
  exact ⟨past' ++ events, t', hrun'.append_exec hexec, hrel'⟩

end Hamlog.Foundation.System
