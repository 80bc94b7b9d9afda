import Mathlib.Data.List.Basic

/-! The first of the largest: a loop that replaces its candidate only by a larger one. -/
namespace MyKernel.Best
variable {size : Nat → Option Nat} {best : Option (Nat × Nat)} {i l n : Nat}

/-- One pass. `size i` is `none` where `i` is no candidate. -/
def keepBest (size : Nat → Option Nat) (best : Option (Nat × Nat)) (i : Nat) : Option (Nat × Nat) :=
  (size i).elim best fun l => if best.all fun b => decide (b.2<l) then some (i,l) else best

def bestBelow (size : Nat → Option Nat) (n : Nat) : Option (Nat × Nat) :=
  (List.range n).foldl (keepBest size) none

/-- `i` is the first index below `n` of the largest size, and `l` that size. -/
structure IsBest (size : Nat → Option Nat) (n i l : Nat) : Prop where
  lt : i<n
  size_eq : size i=some l
  first : ∀ j, j<n → ∀ k, size j=some k → k<l ∨ k=l ∧ i≤j

theorem bestBelow_succ : bestBelow size (n+1)=keepBest size (bestBelow size n) n := by
  rw [bestBelow,List.range_succ,List.foldl_append]
  rfl

/-- What the loop has found after `n` passes. -/
def Found (size : Nat → Option Nat) (n : Nat) (best : Option (Nat × Nat)) : Prop :=
  (best=none ∧ ∀ j, j<n → size j=none) ∨ ∃ i l, best=some (i,l) ∧ IsBest size n i l

theorem IsBest.succ (h : IsBest size n i l) (hn : ∀ k, size n=some k → k≤l) : IsBest size (n+1) i l := by
  refine ⟨Nat.lt_succ_of_lt h.lt,h.size_eq,?_⟩
  intro j hj k hk
  rcases Nat.lt_succ_iff_lt_or_eq.mp hj with hj | rfl
  · exact h.first j hj k hk
  · have := hn k hk
    have := h.lt
    omega

theorem Found.step (h : Found size n best) : Found size (n+1) (keepBest size best n) := by
  rw [keepBest]
  cases hn : size n with
  | none =>
    rcases h with ⟨rfl,hnone⟩ | ⟨i,l,rfl,hbest⟩
    · refine .inl ⟨rfl,fun j hj => ?_⟩
      rcases Nat.lt_succ_iff_lt_or_eq.mp hj with hj | rfl
      · exact hnone j hj
      · exact hn
    · exact .inr ⟨i,l,rfl,hbest.succ fun k hk => by simp [hn] at hk⟩
  | some m =>
    rcases h with ⟨rfl,hnone⟩ | ⟨i,l,rfl,hbest⟩
    · refine .inr ⟨n,m,rfl,Nat.lt_succ_self n,hn,fun j hj k hk => ?_⟩
      rcases Nat.lt_succ_iff_lt_or_eq.mp hj with hj | rfl
      · rw [hnone j hj] at hk
        cases hk
      · rw [hn] at hk
        exact .inr ⟨(Option.some_inj.mp hk).symm,Nat.le_refl _⟩
    · by_cases hlt : l < m
      · refine .inr ⟨n,m,by simp [hlt],Nat.lt_succ_self n,hn,fun j hj k hk => ?_⟩
        rcases Nat.lt_succ_iff_lt_or_eq.mp hj with hj | rfl
        · have := hbest.first j hj k hk
          omega
        · rw [hn] at hk
          exact .inr ⟨(Option.some_inj.mp hk).symm,Nat.le_refl _⟩
      · refine .inr ⟨i,l,by simp [hlt],hbest.succ fun k hk => ?_⟩
        rw [hn] at hk
        have := Option.some_inj.mp hk
        omega

theorem bestBelow_found (size : Nat → Option Nat) (n : Nat) : Found size n (bestBelow size n) := by
  induction n with
  | zero => exact .inl ⟨rfl,fun j hj => absurd hj (Nat.not_lt_zero j)⟩
  | succ n ih =>
    rw [bestBelow_succ]
    exact ih.step

end MyKernel.Best
