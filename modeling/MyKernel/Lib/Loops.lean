/-! Loops that count up. -/
namespace MyKernel.Loops
variable {σ : Type} {body : Nat → σ → σ} {s : σ} {n : Nat}

def upTo (body : Nat → σ → σ) : Nat → σ → σ
  | 0, s => s
  | n+1, s => body n (upTo body n s)

theorem upTo_invariant (P : Nat → σ → Prop) (hstart : P 0 s)
    (hstep : ∀ i t, i<n → P i t → P (i+1) (body i t)) : P n (upTo body n s) := by
  induction n with
  | zero => exact hstart
  | succ n ih =>
    apply hstep n _ (Nat.lt_succ_self n)
    exact ih fun i t hi => hstep i t (by omega)

/-- A loop of which only pass `k` changes the value at `q`. -/
theorem upTo_at {ι β : Type} {body : Nat → (ι → β) → ι → β} {q : ι} {k n : Nat} {f : β → β}
    (h : ∀ j, j<n → ∀ p, body j p q=if j=k then f (p q) else p q) (p : ι → β) :
    upTo body n p q=if k<n then f (p q) else p q := by
  induction n with
  | zero => rfl
  | succ n ih =>
    rw [upTo,h n (Nat.lt_succ_self n),ih fun j hj => h j (Nat.lt_succ_of_lt hj)]
    by_cases hk : n=k
    · rw [if_pos hk,if_neg (by omega),if_pos (by omega)]
    · rw [if_neg hk]
      by_cases hlt : k<n
      · rw [if_pos hlt,if_pos (by omega)]
      · rw [if_neg hlt,if_neg (by omega)]

end MyKernel.Loops
