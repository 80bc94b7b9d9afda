import Mathlib.Logic.Basic

/-! Reachable states of a labelled step relation. -/
namespace MyKernel.Runs
variable {σ ι : Type*} {start : σ → Prop} {step : σ → ι → σ → Prop} {s : σ}

inductive Reachable (start : σ → Prop) (step : σ → ι → σ → Prop) : σ → Prop where
  | init {s : σ} (h : start s) : Reachable start step s
  | next {s t : σ} (i : ι) (hs : Reachable start step s) (h : step s i t) :
      Reachable start step t

/-- What holds at the start and survives every step from a state it holds in
holds in every reachable state. -/
theorem Reachable.invariant (P : σ → Prop) (hr : Reachable start step s)
    (hstart : ∀ s, start s → P s) (hstep : ∀ s i t, P s → step s i t → P t) : P s := by
  induction hr with
  | init h => exact hstart _ h
  | next i _ h ih => exact hstep _ i _ ih h

end MyKernel.Runs
