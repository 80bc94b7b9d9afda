import MyKernel.Lib.Memory

/-! Byte ranges of a 32-bit address space, which may run over the top. -/
namespace MyKernel.Ranges
open Memory
variable {a b m n lo hi x : Nat}

def InRange (a n x : Nat) : Prop := ∃ k, k<n ∧ x=u32 (a+k)

def Disjoint32 (a m b n : Nat) : Prop := ∀ x, InRange a m x → ¬ InRange b n x

theorem inRange_zero : ¬ InRange a 0 x := by
  intro h
  obtain ⟨k,hk,_⟩ := h
  omega

theorem inRange_succ : InRange a (n+1) x ↔ InRange a n x ∨ x=u32 (a+n) := by
  constructor
  · intro h
    obtain ⟨k,hk,hx⟩ := h
    by_cases hkn : k=n
    · subst hkn
      exact Or.inr hx
    · exact Or.inl ⟨k,by omega,hx⟩
  · intro h
    cases h with
    | inl h =>
      obtain ⟨k,hk,hx⟩ := h
      exact ⟨k,by omega,hx⟩
    | inr hx => exact ⟨n,by omega,hx⟩

theorem inRange_append : InRange a (m+n) x ↔ InRange a m x ∨ InRange (a+m) n x := by
  induction n with
  | zero => simp [inRange_zero]
  | succ n ih => rw [← Nat.add_assoc,inRange_succ,ih,inRange_succ,or_assoc,Nat.add_assoc]

theorem inRange_u32 : InRange (u32 a) n x ↔ InRange a n x := by
  have he : ∀ k, u32 (u32 a+k)=u32 (a+k) := by
    intro k
    unfold u32
    omega
  simp only [InRange,he]

end MyKernel.Ranges
