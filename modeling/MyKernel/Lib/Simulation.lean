import MyKernel.Lib.Comp

/-! A computation follows its specification along good runs. -/
namespace MyKernel.Computation
variable {σ τ α β : Type} {R : σ → τ → Prop} {P : τ → Prop} {x x' : Comp σ α} {y y' : Comp τ α}
  {f : α → Comp σ β} {g : α → Comp τ β}

/-- A run that ends in a good state has started in one. -/
def Reflects (P : τ → Prop) (y : Comp τ α) : Prop := ∀ t a t', y t=(some a,t') → P t' → P t

theorem reflects_pure (a : α) : Reflects P (pure a : Comp τ α) := by
  intro t b t' h hP
  rw [pure_eq,Prod.mk.injEq] at h
  rw [h.2]
  exact hP

theorem reflects_running : Reflects P (running : Comp τ α) := by
  intro t a t' h
  simp at h

theorem Reflects.bind (hy : Reflects P y) (hg : ∀ a, Reflects P (g a)) : Reflects P (y >>= g) := by
  intro t b t' h hP
  obtain ⟨a,u,hya,hga⟩ := bind_ended h
  exact hy t a u hya (hg a u b t' hga hP)

theorem Reflects.ite {c : Prop} [Decidable c] (hy : Reflects P y) (hy' : Reflects P y') :
    Reflects P (if c then y else y') := by
  by_cases hc : c
  · rw [if_pos hc]
    exact hy
  · rw [if_neg hc]
    exact hy'

/-- For every good run of `y`, `x` ends with the same value and in a related state. -/
def Follows (R : σ → τ → Prop) (P : τ → Prop) (x : Comp σ α) (y : Comp τ α) : Prop :=
  ∀ s t a t', R s t → y t=(some a,t') → P t' → ∃ s', x s=(some a,s') ∧ R s' t'

theorem follows_pure (a : α) : Follows R P (pure a) (pure a) := by
  intro s t b t' hR h _
  rw [pure_eq,Prod.mk.injEq] at h
  rw [← h.1,← h.2]
  exact ⟨s,rfl,hR⟩

theorem follows_running : Follows R P x running := by
  intro s t a t' _ h
  simp at h

theorem Follows.bind (h : Follows R P x y) (hg : ∀ a, Reflects P (g a)) (hf : ∀ a, Follows R P (f a) (g a)) :
    Follows R P (x >>= f) (y >>= g) := by
  intro s t b t' hR hrun hP
  obtain ⟨a,u,hy,hga⟩ := bind_ended hrun
  obtain ⟨s',hx,hR'⟩ := h s t a u hR hy (hg a u b t' hga hP)
  rw [bind_some hx]
  exact hf a s' u b t' hR' hga hP

theorem Follows.ite {c : Prop} [Decidable c] (h : Follows R P x y) (h' : Follows R P x' y') :
    Follows R P (if c then x else x') (if c then y else y') := by
  by_cases hc : c
  · rw [if_pos hc,if_pos hc]
    exact h
  · rw [if_neg hc,if_neg hc]
    exact h'

end MyKernel.Computation
