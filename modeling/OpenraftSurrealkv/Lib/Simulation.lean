import Mathlib.Logic.Basic

/-!
# Runs with a trace, and simulation

`Traces step s es t`: the events `es` lead from `s` to `t`.  When every step of one
system can be answered by a step of another one with the same event, every run
can be answered by a run with the same trace (`Traces.simulate`).
-/

/-- A run with the events that happened in it, the latest last. -/
inductive Traces {σ E : Type} (step : σ → E → σ → Prop) : σ → List E → σ → Prop
  | nil (s : σ) : Traces step s [] s
  | snoc {s t u : σ} {es : List E} {e : E} :
      Traces step s es t → step t e u → Traces step s (es ++ [e]) u

namespace Traces

variable {σ τ E : Type} {step : σ → E → σ → Prop} {spec : τ → E → τ → Prop}

theorem single {s t : σ} {e : E} (h : step s e t) : Traces step s [e] t := .snoc (.nil s) h

/-- Step by step, the second system can follow the first one. -/
theorem simulate {R : σ → τ → Prop}
    (hstep : ∀ {s s' t e}, R s t → step s e s' → ∃ t', spec t e t' ∧ R s' t')
    {s s' : σ} {t : τ} {es : List E} (h : Traces step s es s') (hR : R s t) :
    ∃ t', Traces spec t es t' ∧ R s' t' := by
  induction h with
  | nil => exact ⟨t, .nil t, hR⟩
  | snoc _ hlast ih =>
      obtain ⟨t₁, hrun, hR₁⟩ := ih
      obtain ⟨t₂, hnext, hR₂⟩ := hstep hR₁ hlast
      exact ⟨t₂, .snoc hrun hnext, hR₂⟩

end Traces
